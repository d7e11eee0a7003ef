import TransactionalMemory.Proofs.Session.Continuity
import TransactionalMemory.Proofs.Session.Refinement

/-! # What a transaction has read

    A read-write transaction that reads a word which it has not written sees the
    committed value. From then on either it has claimed the word, and then the
    committed value stays as it is until the transaction ends; or it has the
    read in its log, with the number of commits of the word at that moment.
    Which of the two holds may change from read to read, and the claim may come
    later than the observation. -/

namespace TransactionalMemory

/-- The transaction has claimed the word, and its value is still the given one,
    or it observed the word at the given commit count. -/
def Transaction.Relies (t : Transaction) (r : Region) (ref : WordRef) (bytes : List UInt8)
    (seq : Nat) : Prop :=
  (ref ∈ t.touched ∧ ∀ c, r.cell? ref = some c → c.value = bytes) ∨ ⟨ref, seq⟩ ∈ t.observed

namespace Session

variable {orderly : Prop} {s s' : Session} {h k : Handle} {t u u' : Transaction}
  {hist events : History}

/-- The history of a session tells when its open transactions began, and what
    was read. -/
structure Traced (hist : History) (s : Session) : Prop where
  /-- An open transaction began and did nothing before that. -/
  opened : ∀ h t, s.open? h = some t → ∃ during before, hist = during ++ .began h :: before ∧
    (∀ committed, .ended h committed ∉ during) ∧ ∀ a, .accessed h a ∉ before
  /-- A read returned what the transaction had written, else the committed value. -/
  coherent : ∀ h ref bytes (past : History), .accessed h (.read ref bytes) :: past <:+ hist →
    bytes = (past.lastWrite h ref).getD (past.value s.region.wordSize ref)
  relies : ∀ h t ref bytes (past : History), s.open? h = some t →
    .accessed h (.read ref bytes) :: past <:+ hist → past.lastWrite h ref = none →
      t.Relies s.region ref bytes (past.commits ref % commitCounts)

/-! ## One effect, one event -/

theorem length_events_le_one (e : Effect orderly s events s') : events.length ≤ 1 := by
  cases e with
  | accessed isOpen readWrite found step =>
    split
    · exact Nat.zero_le _
    · exact Nat.le_refl _
  | began identified => exact Nat.le_refl _
  | ended isOpen valid gives => exact Nat.le_refl _
  | doomed isOpen => exact Nat.zero_le _
  | allocated isOpen readWrite whole granted => exact Nat.zero_le _
  | missed fails => exact Nat.zero_le _
  | freed isOpen readWrite live removable => exact Nat.zero_le _
  | collected => exact Nat.zero_le _

/-- An event is the one that an effect adds, or it was in the history before. -/
theorem suffix_effect (e : Effect orderly s events s') {x : Event} {past : History}
    (hsuffix : x :: past <:+ events ++ hist) :
    (events = [x] ∧ past = hist) ∨ x :: past <:+ hist := by
  have hlength := length_events_le_one e
  match events with
  | [] => exact .inr hsuffix
  | [y] =>
    rcases List.suffix_cons_iff.1 hsuffix with heq | hold
    · cases heq
      exact .inl ⟨rfl, rfl⟩
    · exact .inr hold

/-- An effect that adds an access is a granted access of an open transaction
    that is not doomed. -/
theorem access_of_effect (e : Effect orderly s events s') {a : Access}
    (hevents : events = [.accessed h a]) :
    ∃ t t' r', s.open? h = some t ∧ t.isReadOnly = false ∧ t.doomed = false ∧
      t.WordStep s.region a t' r' ∧ s' = s.put h (some t') r' := by
  cases e with
  | @accessed h t t' a r' i isOpen readWrite found step =>
    split at hevents
    · cases hevents
    next hundoomed =>
      cases hevents
      exact ⟨t, t', r', isOpen, readWrite, Bool.eq_false_iff.2 hundoomed, step, rfl⟩
  | _ => cases hevents

/-- An effect that adds a read is a granted read. -/
theorem read_of_effect (e : Effect orderly s events s') {ref : WordRef} {bytes : List UInt8}
    (hevents : events = [.accessed h (.read ref bytes)]) :
    ∃ t c g r', s.open? h = some t ∧ t.isReadOnly = false ∧ t.doomed = false ∧
      s.region.cell? ref = some c ∧ c.Grants t.id g ∧ bytes = c.latest ∧
      s.region.Becomes r' ref (c.granted t.id g) ∧ s' = s.put h (some (t.log ref g)) r' := by
  obtain ⟨t, t', r', ho, hrw, hundoomed, hstep, rfl⟩ := access_of_effect e hevents
  cases hstep with
  | read cell grants becomes =>
    exact ⟨t, _, _, r', ho, hrw, hundoomed, cell, grants, rfl, becomes, rfl⟩

/-- An effect that tells of an end is the end of an open transaction. -/
theorem ended_of_effect (e : Effect orderly s events s') {committed : Bool}
    (hmem : .ended h committed ∈ events) :
    ∃ t, s.open? h = some t ∧ events = [.ended h committed] ∧
      s' = s.put h none (t.conclusion s.region committed) := by
  cases e with
  | @ended h t c isOpen valid gives =>
    cases List.mem_singleton.1 hmem
    exact ⟨t, isOpen, rfl, rfl⟩
  | accessed isOpen readWrite found step =>
    split at hmem
    · cases hmem
    · cases List.mem_singleton.1 hmem
  | began identified => cases List.mem_singleton.1 hmem
  | doomed isOpen => cases hmem
  | allocated isOpen readWrite whole granted => cases hmem
  | missed fails => cases hmem
  | freed isOpen readWrite live removable => cases hmem
  | collected => cases hmem

/-- No effect tells of the end of a transaction that is open afterwards. -/
theorem not_ended_of_open (e : Effect orderly s events s') (hu : s'.open? k = some u)
    (committed : Bool) : .ended k committed ∉ events := by
  intro hmem
  obtain ⟨t, ho, -, rfl⟩ := ended_of_effect e hmem
  exact (open?_of_put_none ho hu).2 rfl

/-! ## Effects keep the trace -/

namespace Traced

/-- Whoever is open after an effect began before it, or just then. -/
theorem opened_effect (hrep : Represents hist s) (htr : Traced hist s)
    (e : Effect orderly s events s') (hu : s'.open? k = some u) :
    ∃ during before, events ++ hist = during ++ .began k :: before ∧
      (∀ committed, .ended k committed ∉ during) ∧ ∀ a, .accessed k a ∉ before := by
  rcases continues_effect e hu with ⟨u₀, hu₀, -⟩ | ⟨rfl, rfl⟩
  · obtain ⟨during, before, rfl, hduring, hbefore⟩ := htr.opened k u₀ hu₀
    refine ⟨events ++ during, before, (List.append_assoc ..).symm, fun committed hmem => ?_,
      hbefore⟩
    rcases List.mem_append.1 hmem with hnew | hold
    · exact not_ended_of_open e hu committed hnew
    · exact hduring committed hold
  · -- It began just now, and its handle is in no event before.
    refine ⟨[], hist, rfl, fun _ => List.not_mem_nil, fun a ha => ?_⟩
    exact Nat.lt_irrefl _ (hrep.known _ a ha).1

/-- What was read returned what it should, in the history so far. -/
theorem coherent_effect (hrep : Represents hist s) (htr : Traced hist s)
    (e : Effect orderly s events s') {ref : WordRef} {bytes : List UInt8} {past : History}
    (hsuffix : .accessed h (.read ref bytes) :: past <:+ events ++ hist) :
    bytes = (past.lastWrite h ref).getD (past.value s'.region.wordSize ref) := by
  rw [wordSize_effect e]
  rcases suffix_effect e hsuffix with ⟨hevents, rfl⟩ | hold
  · -- The read is new: its bytes are the latest that the cell has for it.
    obtain ⟨t, c, g, r', ho, -, hundoomed, hc, hgrants, rfl, -⟩ := read_of_effect e hevents
    rw [Cell.latest_eq_of_grants hgrants, hrep.writes h t ref c ho hundoomed hc,
      hrep.values ref c hc]
  · exact htr.coherent h ref bytes past hold

/-- Whoever has just read a word that it had not written relies on the value. -/
theorem relies_read (hs : s.Steady) (hrep : Represents hist s) {ref : WordRef} {c : Cell}
    {g : Grant} {r' : Region} (ho : s.open? h = some t) (hrw : t.isReadOnly = false)
    (hundoomed : t.doomed = false) (hc : s.region.cell? ref = some c) (hgrants : c.Grants t.id g)
    (hbecomes : s.region.Becomes r' ref (c.granted t.id g))
    (hunwritten : hist.lastWrite h ref = none) :
    (t.log ref g).Relies r' ref c.latest (hist.commits ref % commitCounts) := by
  have hlatest : c.latest = c.value := by
    rw [Cell.latest_eq_of_grants hgrants, ← hrep.writes h t ref c ho hundoomed hc, hunwritten]
    rfl
  have hvalue : ∀ c', r'.cell? ref = some c' → c'.value = c.latest := by
    intro c' hc'
    cases hbecomes.self.symm.trans hc'
    rw [hlatest, Cell.value_granted]
  cases g with
  | claimed => exact .inl ⟨List.mem_cons_self, hvalue⟩
  | owned => exact .inl ⟨hs.mem_touched ho hrw hc hgrants, hvalue⟩
  | observed seq =>
    -- The count that it has logged is the one of the history.
    refine .inr ?_
    rw [← hrep.counts ref c hc, ← hgrants.2.1]
    exact List.mem_cons_self

/-- Whoever relied on a value goes on relying on it. -/
theorem relies_effect (hs : s.Steady) (e : Effect orderly s events s') (hu : s.open? k = some u)
    (hu' : s'.open? k = some u') (hgoes : u.Continues u') {ref : WordRef} {bytes : List UInt8}
    {seq : Nat} (hrelies : u.Relies s.region ref bytes seq) :
    u'.Relies s'.region ref bytes seq := by
  rcases hrelies with ⟨htouched, hvalue⟩ | hobserved
  · -- Nobody else commits a word that is claimed.
    refine .inl ⟨hgoes.touched ref htouched, fun c' hc' => ?_⟩
    obtain ⟨c, hc, heq⟩ := value_effect hs e hu hu' htouched hc'
    rw [heq, hvalue c hc]
  · exact .inr (hgoes.observed _ hobserved)

/-- Every effect keeps the trace. -/
theorem effect (hs : s.Steady) (hrep : Represents hist s) (htr : Traced hist s)
    (e : Effect orderly s events s') : Traced (events ++ hist) s' where
  opened := fun k u hu => opened_effect hrep htr e hu
  coherent := fun h ref bytes past hsuffix => coherent_effect hrep htr e hsuffix
  relies := by
    intro k u' ref bytes past hu' hsuffix hunwritten
    rcases suffix_effect e hsuffix with ⟨hevents, rfl⟩ | hold
    · obtain ⟨t, c, g, r', ho, hrw, hundoomed, hc, hgrants, rfl, hbecomes, rfl⟩ :=
        read_of_effect e hevents
      rw [open?_put_self ho] at hu'
      cases hu'
      exact relies_read hs hrep ho hrw hundoomed hc hgrants hbecomes hunwritten
    · rcases continues_effect e hu' with ⟨u, hu, hgoes⟩ | ⟨rfl, -⟩
      · exact relies_effect hs e hu hu' hgoes (htr.relies k u ref bytes past hu hold hunwritten)
      · -- A transaction that has just begun has read nothing.
        have hmem := hold.subset List.mem_cons_self
        exact absurd (hrep.known _ _ hmem).1 (Nat.lt_irrefl _)

end Traced

/-- Nobody has read anything in a newly created session. -/
theorem Traced.of_create {settings : Settings} (h : create settings = .ok s) : Traced [] s := by
  constructor
  · intro h' t ho
    rw [open?_of_create h] at ho
    cases ho
  · intro h' ref bytes past hsuffix
    cases List.suffix_nil.1 hsuffix
  · intro h' t ref bytes past _ hsuffix
    cases List.suffix_nil.1 hsuffix

/-- What the history of a run says of a session, whether the run was orderly or not. -/
structure Tracks (hist : History) (s : Session) : Prop where
  steady : s.Steady
  represents : Represents hist s
  traced : Traced hist s

namespace Tracks

theorem of_create {settings : Settings} (h : create settings = .ok s) : Tracks [] s :=
  ⟨steady_of_create h, .of_create h, .of_create h⟩

theorem effect (h : Tracks hist s) (e : Effect orderly s events s') : Tracks (events ++ hist) s' :=
  ⟨h.steady.effect e, h.represents.effect h.steady e, h.traced.effect h.steady h.represents e⟩

theorem step (h : Tracks hist s) (operation : Operation) :
    Tracks (s.events operation ++ hist) (s.step operation).2 := by
  have heffects : Effects False s _ _ := effects_step h.steady operation nofun
  exact Effects.induct (fun e h => h.effect e) heffects h

theorem run (h : Tracks hist s) (operations : List Operation) :
    Tracks (s.record hist operations) (s.run operations).2 := by
  induction operations generalizing hist s with
  | nil => exact h
  | cons operation rest ih => exact ih (h.step operation)

end Tracks

end Session

theorem Recorded.tracks {hist : History} {s : Session} (h : Recorded hist s) :
    Session.Tracks hist s := by
  induction h with
  | created created => exact .of_create created
  | step before operation allowed ih => exact ih.step operation

end TransactionalMemory
