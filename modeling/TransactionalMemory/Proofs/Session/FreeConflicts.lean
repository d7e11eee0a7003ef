import TransactionalMemory.Proofs.Session.Reclamation
import TransactionalMemory.Proofs.Session.Serialization
import TransactionalMemory.Proofs.Session.StaleAddress

/-! # What a free conflicts with

    A free marks the slot of its segment, and does not look at the words of the
    segment. So it is in conflict with what comes later: whoever uses the
    segment after another transaction has freed it fails and cannot commit,
    also once the free is committed. A use that came before is no conflict. Two
    transactions of which one has used a segment and the other one has freed it
    afterwards are told apart by the words that both of them access, and if
    there are none, then both of them commit. -/

namespace TransactionalMemory

/-- The operation has failed, and its transaction is doomed. -/
structure Outcome.Fails {α : Type} (o : Outcome α) : Prop where
  error : ∃ failure, o.value = .error failure
  doomed : o.transaction.doomed = true

/-! ## Using a slot that is not live -/

namespace Transaction

variable {t : Transaction} {r : Region} {a : Address} {i : Nat}

theorem fails_refuse {α : Type} (h : t.doomed = true) :
    (t.refuse r : Outcome α).Fails := ⟨⟨_, rfl⟩, h⟩

theorem fails_fail {α : Type} (t : Transaction) (r : Region) (failure : Failure) :
    (t.fail r failure : Outcome α).Fails := ⟨⟨_, rfl⟩, rfl⟩

/-- A read-write transaction reaches segments in live slots only. -/
theorem live_of_resolved (hrw : t.isReadOnly = false) {length slot : Nat} {first : WordRef}
    (h : t.Resolved r a length slot first) : r.table.lookup slot = .live first.segment := by
  have hreach := h.reached
  unfold reach at hreach
  cases hlookup : r.table.lookup slot with
  | live n => simpa [hlookup] using hreach
  | freeing n =>
    simp only [hlookup, hrw, Bool.false_eq_true, if_false] at hreach
    split at hreach <;> cases hreach
  | retired n => simp [hlookup, hrw] at hreach
  | vacant => simp [hlookup] at hreach

section

variable (hrw : t.isReadOnly = false) (ha : a.slot? = some i)
  (hdead : ∀ n, r.table.lookup i ≠ .live n)

include hrw ha hdead

theorem fails_read (length : Nat) : (t.read r a length).Fails := by
  cases t.read_cases r a length with
  | refused doomed heq => rw [heq]; exact fails_refuse doomed
  | failed undoomed why heq => rw [heq]; exact fails_fail ..
  | shared undoomed readOnly resolved found heq => rw [hrw] at readOnly; cases readOnly
  | passed undoomed readWrite resolved found heq =>
    cases ha.symm.trans resolved.slot_eq
    exact absurd (live_of_resolved hrw resolved) (hdead _)

theorem fails_write (bytes : List UInt8) : (t.write r a bytes).Fails := by
  cases t.write_cases r a bytes with
  | refused doomed heq => rw [heq]; exact fails_refuse doomed
  | failed undoomed why heq => rw [heq]; exact fails_fail ..
  | passed undoomed readWrite resolved found heq =>
    cases ha.symm.trans resolved.slot_eq
    exact absurd (live_of_resolved hrw resolved) (hdead _)

omit hrw in
theorem fails_free : (t.free r a).Fails := by
  cases t.free_cases r a with
  | refused doomed heq => rw [heq]; exact fails_refuse doomed
  | failed undoomed why heq => rw [heq]; exact fails_fail ..
  | marked undoomed readWrite freeable live heq =>
    cases ha.symm.trans (Transaction.slot?_of_freeable freeable)
    exact absurd live (hdead _)

end

end Transaction

namespace Session

variable {s s' : Session} {h k : Handle} {t t' u : Transaction} {hist past events : History}
  {i : Nat}

/-- The operation of transaction `h` reads, writes or frees at an address of slot `i`. -/
inductive UsesSlot (h : Handle) (i : Nat) : Operation → Prop where
  | read {a : Address} {length : Nat} (slot : a.slot? = some i) : UsesSlot h i (.read h a length)
  | write {a : Address} {bytes : List UInt8} (slot : a.slot? = some i) :
      UsesSlot h i (.write h a bytes)
  | free {a : Address} (slot : a.slot? = some i) : UsesSlot h i (.free h a)

/-- Whoever uses a slot that is not live fails and is doomed. -/
theorem fails_of_usesSlot (ho : s.open? h = some t) (hrw : t.isReadOnly = false)
    (hdead : ∀ n, s.region.table.lookup i ≠ .live n) {operation : Operation}
    (huses : UsesSlot h i operation) :
    (s.step operation).1.isOk = false ∧
      ∃ t', (s.step operation).2.open? h = some t' ∧ t'.doomed = true := by
  have haccess : ∀ {α : Type} (op : Transaction → Region → Outcome α), (op t s.region).Fails →
      (∃ failure, (s.access h op).1 = some (.error failure)) ∧
        ∃ t', (s.access h op).2.open? h = some t' ∧ t'.doomed = true := by
    intro α op hfails
    obtain ⟨failure, herror⟩ := hfails.error
    rw [access_of_open op ho]
    exact ⟨⟨failure, congrArg some herror⟩, _, open?_put_self ho, hfails.doomed⟩
  cases huses with
  | @read a length slot =>
    obtain ⟨⟨failure, herror⟩, hdoomed⟩ := haccess (fun t r => t.read r a length)
      (Transaction.fails_read hrw slot hdead length)
    refine ⟨?_, hdoomed⟩
    show (Answer.bytes (s.access h fun t r => t.read r a length).1).isOk = false
    rw [herror]
    rfl
  | @write a bytes slot =>
    obtain ⟨⟨failure, herror⟩, hdoomed⟩ := haccess (fun t r => t.write r a bytes)
      (Transaction.fails_write hrw slot hdead bytes)
    refine ⟨?_, hdoomed⟩
    show (Answer.done (s.access h fun t r => t.write r a bytes).1).isOk = false
    rw [herror]
    rfl
  | @free a slot =>
    obtain ⟨⟨failure, herror⟩, hdoomed⟩ := haccess (fun t r => t.free r a)
      (Transaction.fails_free slot hdead)
    refine ⟨?_, hdoomed⟩
    show (Answer.done (s.access h fun t r => t.free r a).1).isOk = false
    rw [herror]
    rfl

/-- If the transaction is open and ends now, it does not commit. -/
def CannotCommit (s : Session) (h : Handle) : Prop :=
  ∀ committed, (s.finish h).1 = some committed → committed = false

theorem cannotCommit_of_open (h : ∀ t, s.open? k = some t →
    (!t.doomed && t.observationsHold s.region) = false) : s.CannotCommit k := by
  intro committed hend
  cases ho : s.open? k with
  | none =>
    rw [finish, ho] at hend
    cases hend
  | some t =>
    rw [finish_of_open ho, h t ho] at hend
    exact (Option.some.inj hend).symm

/-- Whoever is doomed cannot commit, now or later. -/
theorem cannotCommit_of_doomed (hs : s.Steady) (ho : s.open? h = some t)
    (hdoomed : t.doomed = true) (operations : List Operation) :
    (s.run operations).2.CannotCommit h := by
  refine cannotCommit_of_open fun t' ho' => ?_
  have heffects : Effects False s _ _ := effects_record hs operations nofun
  rw [(continues_effects heffects ho ho').doomed hdoomed]
  rfl

/-! ## A slot that another transaction has freed -/

/-- Transaction `k` has freed slot `i` and is open, or the slot is out of use
    and transaction `t` keeps it from being used again. -/
def Freed (s : Session) (k : Handle) (t : Transaction) (i : Nat) : Prop :=
  (∃ u, s.open? k = some u ∧ i ∈ u.freed) ∨
    ((s.region.table.lookup i).isOccupied = false ∧ ∃ n, s.region.Keeps t.epoch i n)

theorem Freed.not_live (hs : s.Sound) (hf : s.Freed k t i) (n : Nat) :
    s.region.table.lookup i ≠ .live n := by
  intro hlive
  rcases hf with ⟨u, hu, hi⟩ | ⟨hunused, -⟩
  · obtain ⟨m, hm⟩ := (hs.logged k u hu).freed i hi
    cases hlive.symm.trans hm
  · rw [hlive] at hunused
    cases hunused

/-- A slot out of use that somebody keeps stays out of use. -/
theorem unused_effect (hs : s.Sound) (e : Effect True s events s') {epoch n : Nat}
    (hk : s.region.Keeps epoch i n) (hi : (s.region.table.lookup i).isOccupied = false) :
    (s'.region.table.lookup i).isOccupied = false := by
  cases e with
  | began identified => rwa [(begins_enter identified).table_eq]
  | accessed isOpen readWrite found step =>
    obtain ⟨_, _, _, _, hbecomes, _⟩ := step.inv
    rwa [region_put, hbecomes.toSameButWords.table_eq]
  | doomed isOpen => exact hi
  | @allocated h t r' size j isOpen readWrite whole granted =>
    have hne := allocate?_ne_of_keeps hs hk granted
    rwa [region_put, (Region.grows_of_allocate? granted).others i hne.symm]
  | missed fails =>
    obtain ⟨table, hlookup, rfl⟩ := fails.inv
    exact (congrArg Slot.isOccupied (hlookup i)).trans hi
  | @freed h t j m isOpen readWrite live removable =>
    -- The slot that is marked is live.
    have hne : i ∉ [j] := by
      intro hmem
      rw [List.mem_singleton.1 hmem, live] at hi
      cases hi
    rwa [region_put, (Region.moves_mark hs.slotted live).lookup_of_not_mem hne]
  | @ended h t committed isOpen valid gives =>
    have hfreed : i ∉ t.freed := by
      intro hmem
      obtain ⟨m, hm⟩ := (hs.logged h t isOpen).freed i hmem
      rw [hm] at hi
      cases hi
    rw [region_put, Transaction.lookup_conclusion, if_neg hfreed]
    split
    · rfl
    · exact hi
  | collected =>
    rcases s.region.lookup_collect i with heq | hvacant
    · exact heq ▸ hi
    · exact hvacant ▸ rfl

/-- What another transaction has freed stays so for an open one, unless the
    other one ends without a commit. -/
theorem Freed.effect (hs : s.Sound) (e : Effect True s events s') (ho : s.open? h = some t)
    (ho' : s'.open? h = some t') (hgives : .ended k false ∉ events) (hf : s.Freed k t i) :
    s'.Freed k t' i := by
  rcases hf with ⟨u, hu, hi⟩ | ⟨hunused, n, hkeeps⟩
  · rcases open_after_effect e hu with ⟨u', hu', hgoes⟩ | ⟨committed, rfl, rfl⟩
    · exact .inl ⟨u', hu', hgoes.freed i hi⟩
    · -- Its commit retires the slot.
      cases committed with
      | false => exact absurd (List.mem_singleton.2 rfl) hgives
      | true =>
        obtain ⟨n, hn⟩ := (hs.logged k u hu).freed i hi
        have hretired : (u.conclusion s.region true).table.lookup i = .retired n := by
          have hkept : i ∉ u.emptied true := List.not_mem_nil
          rw [Transaction.lookup_conclusion, if_neg hkept, if_pos hi, hn]
          rfl
        refine .inr ⟨?_, n, .inl ?_⟩
        · rw [region_put, hretired]; rfl
        · rw [region_put, hretired]; rfl
  · have hepoch := (continues_effects (.single e) ho ho').epoch_eq
    exact .inr ⟨unused_effect hs e hkeeps hunused, n, hepoch ▸ keeps_effect hs e ho ho' hkeeps⟩

theorem Freed.effects (hs : s.Sound) (e : Effects True s events s') (ho : s.open? h = some t)
    (ho' : s'.open? h = some t') (hgives : .ended k false ∉ events) (hf : s.Freed k t i) :
    s'.Freed k t' i := by
  induction e generalizing t' with
  | nil =>
    cases ho.symm.trans ho'
    exact hf
  | snoc before last ih =>
    -- It is open before the last effect too.
    obtain ⟨v, hv, -⟩ := open_between before last ho ho'
    have hmiddle := ih hv fun hmem => hgives (List.mem_append_right _ hmem)
    exact hmiddle.effect (hs.effects before) last hv ho' fun hmem =>
      hgives (List.mem_append_left _ hmem)

/-- What a free that succeeds comes to. -/
theorem frees_of_ok {a : Address} (ha : a.slot? = some i)
    (hfree : (s.free k a).1 = some (.ok ())) :
    ∃ t n, s.open? k = some t ∧ s.region.table.lookup i = .live n ∧
      (s.free k a).2 = s.put k (some { t with freed := i :: t.freed })
        { s.region with table := s.region.table.mark i } := by
  cases ho : s.open? k with
  | none =>
    rw [free, access, ho] at hfree
    cases hfree
  | some t =>
    rw [free, access_of_open _ ho] at hfree ⊢
    cases t.free_cases s.region a with
    | refused doomed heq => rw [heq] at hfree; cases hfree
    | failed undoomed why heq => rw [heq] at hfree; cases hfree
    | marked undoomed readWrite freeable live heq =>
      rw [heq]
      cases ha.symm.trans (Transaction.slot?_of_freeable freeable)
      exact ⟨t, _, rfl, live, rfl⟩

/-- After a free that succeeds, the slot is in the log of its transaction. -/
theorem freed_of_ok {a : Address} (ha : a.slot? = some i)
    (hfree : (s.free k a).1 = some (.ok ())) :
    ∃ u, (s.free k a).2.open? k = some u ∧ i ∈ u.freed := by
  obtain ⟨t, -, ho, -, hput⟩ := frees_of_ok ha hfree
  rw [hput]
  exact ⟨_, open?_put_self ho, List.mem_cons_self⟩

/-- Whoever uses a segment that another transaction has freed meanwhile fails,
    and cannot commit from then on. -/
theorem fails_after_free (hs : s.Sound) (ho : s.open? h = some t) (hk : h ≠ k) {a : Address}
    (ha : a.slot? = some i) (hfree : (s.free k a).1 = some (.ok ()))
    {middle : List Operation} (horderly : (s.free k a).2.Orderly middle)
    (hgives : .ended k false ∉ (s.free k a).2.record [] middle)
    (hs' : ((s.free k a).2.run middle).2 = s') (ho' : s'.open? h = some t')
    (hrw : t'.isReadOnly = false) {operation : Operation} (huses : UsesSlot h i operation) :
    (s'.step operation).1.isOk = false ∧
      ∀ after, ((s'.step operation).2.run after).2.CannotCommit h := by
  have hfirst : Effects True s [] (s.free k a).2 := effects_free s k a
  have hs₁ := hs.effects hfirst
  have hmore : Effects True (s.free k a).2 _ s' :=
    hs' ▸ effects_record hs₁.toSteady middle fun _ => horderly
  have hs₂ := hs₁.effects hmore
  have ho₁ : (s.free k a).2.open? h = some t := (s.open?_access_ne _ (Ne.symm hk)).trans ho
  have hfreed := Freed.effects hs₁ hmore ho₁ ho' hgives (.inl (freed_of_ok ha hfree))
  obtain ⟨hfails, t'', ho'', hdoomed⟩ := fails_of_usesSlot ho' hrw (hfreed.not_live hs₂) huses
  have hlast : Effects False s' _ _ := effects_step hs₂.toSteady operation nofun
  exact ⟨hfails, cannotCommit_of_doomed (hs₂.toSteady.effects hlast) ho'' hdoomed⟩

/-! ## Words that another transaction has written -/

/-- Since an access, the transaction has the word claimed and the word was not
    committed, or the transaction has observed the word as it was at the access. -/
def Counted (hist : History) (s : Session) : Prop :=
  ∀ k u a (past : History), s.open? k = some u → .accessed k a :: past <:+ hist →
    (a.ref ∈ u.touched ∧ hist.commits a.ref = past.commits a.ref) ∨
      ⟨a.ref, past.commits a.ref % commitCounts⟩ ∈ u.observed

/-- A word is not committed while somebody else has it claimed. -/
theorem commits_of_touched (hs : s.Sound) (hrep : Represents hist s)
    (e : Effect True s events s') (hu : s.open? k = some u) (hopen : (s'.open? k).isSome = true)
    {ref : WordRef} (href : ref ∈ u.touched) :
    History.commits ref (events ++ hist) = hist.commits ref := by
  cases e with
  | @ended h t committed isOpen valid gives =>
    cases committed with
    | false => rfl
    | true =>
      obtain ⟨u', hu'⟩ := Option.isSome_iff_exists.1 hopen
      have hk := (open?_of_put_none isOpen hu').2
      obtain ⟨c, hc, hid⟩ := hs.cell?_of_touched hu href
      have hne := hs.toSteady.accessor_ne_of_other isOpen hu hk hc hid
      -- Whoever ends has not written the word.
      have hnone : hist.lastWrite h ref = none := by
        rw [hrep.writes h t ref c isOpen (valid rfl).1 hc, Cell.pendingOf, if_neg hne]
      show hist.commits ref + (if (hist.lastWrite h ref).isSome then 1 else 0) = _
      rw [hnone]
      rfl
  | accessed isOpen readWrite found step => split <;> rfl
  | _ => rfl

theorem Counted.effect (hs : s.Sound) (hrep : Represents hist s) (hc : Counted hist s)
    (e : Effect True s events s') : Counted (events ++ hist) s' := by
  intro k u' a past hu' hsuffix
  rcases suffix_effect e hsuffix with ⟨rfl, rfl⟩ | hold
  · -- The access is new: the transaction has just logged it.
    obtain ⟨t, t', r', ho, hrw, -, hstep, rfl⟩ := access_of_effect e rfl
    obtain ⟨c, -, g, hcell, -, hgrants, rfl, -⟩ := hstep.inv
    rw [open?_put_self ho] at hu'
    cases hu'
    cases g with
    | claimed => exact .inl ⟨List.mem_cons_self, rfl⟩
    | owned => exact .inl ⟨hs.toSteady.mem_touched ho hrw hcell hgrants, rfl⟩
    | observed seq =>
      refine .inr ?_
      rw [← hrep.counts a.ref c hcell, ← hgrants.2.1]
      exact List.mem_cons_self
  · rcases continues_effect e hu' with ⟨u, hu, hgoes⟩ | ⟨rfl, -⟩
    · rcases hc k u a past hu hold with ⟨htouched, hcount⟩ | hobserved
      · have hsame := commits_of_touched hs hrep e hu (by rw [hu']; rfl) htouched
        exact .inl ⟨hgoes.touched _ htouched, hsame.trans hcount⟩
      · exact .inr (hgoes.observed _ hobserved)
    · -- A transaction that has just begun has accessed nothing.
      have hmem := hold.subset List.mem_cons_self
      exact absurd (hrep.known _ _ hmem).1 (Nat.lt_irrefl _)

end Session

theorem Recorded.counted {hist : History} {s : Session} (h : Recorded hist s) :
    Session.Counted hist s := by
  induction h with
  | created created =>
    intro k u a past hu
    rw [Session.open?_of_create created] at hu
    cases hu
  | @step hist s before operation allowed ih =>
    have hchain : Effects True s _ _ :=
      Session.effects_step before.sound.toSteady operation fun _ => allowed
    exact (Effects.induct (P := fun hist s => s.Sound ∧ Session.Represents hist s ∧
        Session.Counted hist s)
      (fun e ⟨hs, hrep, hc⟩ => ⟨hs.effect e, hrep.effect hs.toSteady e, hc.effect hs hrep e⟩)
      hchain ⟨before.sound, before.represents, ih⟩).2.2

namespace Session

variable {s s' : Session} {h k : Handle} {t t' u : Transaction} {hist past during : History}

/-- Whoever accesses a word that another transaction writes and commits later
    on cannot commit. -/
theorem cannotCommit_of_overtaken (hrec : Recorded hist s) (hfew : hist.FewCommits) {a : Access}
    (hended : .ended k true :: during <:+ hist) (haccess : .accessed h a :: past <:+ during)
    (hwrites : (during.lastWrite k a.ref).isSome = true) : s.CannotCommit h := by
  have hs := hrec.sound
  have hsuffix : .accessed h a :: past <:+ hist :=
    haccess.trans ((List.suffix_cons ..).trans hended)
  -- The word was committed at least once since the access.
  have hmore : past.commits a.ref < hist.commits a.ref := by
    have hbefore := History.commits_le_of_suffix a.ref ((List.suffix_cons ..).trans haccess)
    have hafter := History.commits_le_of_suffix a.ref hended
    rw [History.commits, if_pos hwrites] at hafter
    omega
  refine cannotCommit_of_open fun t ho => Bool.eq_false_iff.2 fun hvalid => ?_
  rw [Bool.and_eq_true] at hvalid
  rcases hrec.counted h t a past ho hsuffix with ⟨-, hcount⟩ | hobserved
  · omega
  · have hcount := commits_eq_of_observed hs hrec.tracks hfew ho hvalid.2 hsuffix hobserved
    omega

/-! ## What a free leaves alone -/

/-- Whether an open transaction commits depends on the transaction and on the segments only. -/
theorem finish_congr (hopen : s'.open? h = s.open? h)
    (hsegments : s'.region.segments = s.region.segments) : (s'.finish h).1 = (s.finish h).1 := by
  cases ho : s.open? h with
  | none => simp only [finish, hopen, ho]
  | some t =>
    have hsame : t.observationsHold s'.region = t.observationsHold s.region := by
      unfold Transaction.observationsHold Region.segment?
      rw [hsegments]
    rw [finish_of_open ho, finish_of_open (hopen.trans ho), hsame]

/-- A free changes no other transaction's chances to commit. -/
theorem finish_after_free (s : Session) (hk : h ≠ k) (a : Address) :
    ((s.free k a).2.finish h).1 = (s.finish h).1 := by
  refine finish_congr (s.open?_access_ne _ (Ne.symm hk)) ?_
  cases ho : s.open? k with
  | none => rw [free, access, ho]
  | some t =>
    rw [free, access_of_open _ ho]
    cases t.free_cases s.region a with
    | refused doomed heq => rw [heq]; rfl
    | failed undoomed why heq => rw [heq]; rfl
    | marked undoomed readWrite freeable live heq => rw [heq]; rfl

/-- A commit takes nobody else's commit away. -/
theorem finish_after_commit (hs : s.Sound) (hk : h ≠ k) (hh : (s.finish h).1 = some true)
    (hcommit : (s.finish k).1 = some true) : ((s.finish k).2.finish h).1 = some true := by
  have heffects : Effects True s _ (s.finish k).2 := effects_finish k fun _ hfalse => by
    rw [hcommit] at hfalse
    cases hfalse
  have hs' := hs.effects heffects
  cases ho : s.open? h with
  | none =>
    rw [finish, ho] at hh
    cases hh
  | some t =>
    cases hu : s.open? k with
    | none =>
      rw [finish, hu] at hcommit
      cases hcommit
    | some u =>
      have ho' : (s.finish k).2.open? h = some t := (s.open?_finish_ne (Ne.symm hk)).trans ho
      rw [finish_of_open ho, Option.some.injEq, Bool.and_eq_true] at hh
      rw [finish_of_open ho', Option.some.injEq, Bool.and_eq_true]
      refine ⟨hh.1, (hs'.observationsHold_iff ho').2 fun o hobserved c' hc' => ?_⟩
      rw [finish_of_open hu] at hcommit hc'
      rw [Option.some.inj hcommit] at hc'
      -- The collection leaves the word as the end of the other transaction has left it.
      have hsettled := hs.toSteady.cells_settles hu (u.settles_conclusion s.region true) o.ref
      rw [(u.conclusion s.region true).drops_collect.cell?_of_some hc'] at hsettled
      obtain ⟨c, hc, rfl⟩ := Option.map_eq_some_iff.1 hsettled.symm
      have hrw : t.isReadOnly = false := Bool.eq_false_iff.2 fun hro => by
        rw [((hs.logged h t ho).readers hro).2.1] at hobserved
        cases hobserved
      have hid := hs.toSteady.id_ne ho hu (Ne.symm hk) hrw
      exact ((hs.observationsHold_iff ho).1 hh.2 o hobserved c hc).settled hid true

/-! ## A free and the uses of its segment -/

/-- How a free, and the commit of whoever has freed, bear on other transactions. -/
structure FreesConflict (start : Session) (operations : List Operation) : Prop where
  /-- Whoever uses a segment that another transaction has freed meanwhile, and
      has not ended without a commit since, fails and cannot commit any more. -/
  later : ∀ before k a middle operation after h i t t',
    operations = before ++ .free k a :: (middle ++ operation :: after) → h ≠ k →
    (start.run before).2.open? h = some t →
    a.slot? = some i → ((start.run before).2.free k a).1 = some (.ok ()) →
    .ended k false ∉ ((start.run before).2.free k a).2.record [] middle →
    (start.run (before ++ .free k a :: middle)).2.open? h = some t' → t'.isReadOnly = false →
    UsesSlot h i operation →
      ((start.run (before ++ .free k a :: middle)).2.step operation).1.isOk = false ∧
        (start.run operations).2.CannotCommit h
  /-- Whoever accesses a word that another transaction writes and commits later
      on cannot commit, if no word is committed too often in the meantime. -/
  overtaken : ∀ h k a (during past : History), (start.record [] operations).FewCommits →
    .ended k true :: during <:+ start.record [] operations → .accessed h a :: past <:+ during →
    (during.lastWrite k a.ref).isSome = true → (start.run operations).2.CannotCommit h
  /-- A free changes nobody else's chances to commit, whatever they have used before. -/
  unnoticed : ∀ h k a, h ≠ k →
    (((start.run operations).2.free k a).2.finish h).1 = ((start.run operations).2.finish h).1
  /-- Nor does a commit, with all the frees that come into effect, take them away. -/
  harmless : ∀ h k, h ≠ k → ((start.run operations).2.finish h).1 = some true →
    ((start.run operations).2.finish k).1 = some true →
      (((start.run operations).2.finish k).2.finish h).1 = some true

/-- In every orderly run, a free is in conflict with the uses of its segment
    that come later, and not with those that came before. -/
theorem run_frees_conflict {settings : Settings} {start : Session}
    (hcreate : create settings = .ok start) (operations : List Operation)
    (horderly : start.Orderly operations) : FreesConflict start operations := by
  have hrec := (Recorded.created hcreate).run operations horderly
  constructor
  case later =>
    intro before k a middle operation after h i t t' heq hk ho ha hfree hgives ho' hrw huses
    subst heq
    obtain ⟨hbefore, -, hrest⟩ := (start.orderly_append _ _).1 horderly
    have hs := ((Recorded.created hcreate).run before hbefore).sound
    have hmiddle := ((orderly_append _ _ _).1 hrest).1
    have hcut : (start.run (before ++ .free k a :: middle)).2
        = (((start.run before).2.free k a).2.run middle).2 := start.run_cut before _ middle
    have hend : (start.run (before ++ .free k a :: (middle ++ operation :: after))).2
        = (((start.run (before ++ .free k a :: middle)).2.step operation).2.run after).2 := by
      rw [run_cut, run_cut, run_cut]
    obtain ⟨hfails, hcannot⟩ := fails_after_free hs ho hk ha hfree hmiddle hgives hcut.symm ho' hrw
      huses
    exact ⟨hfails, hend ▸ hcannot after⟩
  case overtaken =>
    exact fun h k a during past hfew hended haccess hwrites =>
      cannotCommit_of_overtaken hrec hfew hended haccess hwrites
  case unnoticed => exact fun h k a hk => finish_after_free _ hk a
  case harmless => exact fun h k hk hh hcommit => finish_after_commit hrec.sound hk hh hcommit

/-- One transaction observes a word that another one has claimed, and uses a
    segment. The other one writes the word, frees the segment and commits. Then
    the first one uses the segment once more. -/
def observedThenFreed : List Operation :=
  [.begin false, .alloc 0 8 true, .finish 0, .begin false, .begin false, .read 2 Region.start 8,
    .read 1 Region.start 8, .read 1 (.ofParts 1 0) 8,
    .write 2 Region.start [1, 2, 3, 4, 5, 6, 7, 8], .free 2 (.ofParts 1 0), .finish 2,
    .read 1 (.ofParts 1 0) 8]

/-- It cannot commit any more, with the last use and without it. -/
theorem run_frees_conflict_observed :
    ∃ start, create { size := 8, align := 8 } = .ok start ∧
      FreesConflict start observedThenFreed ∧
      (start.run (observedThenFreed.take 11)).2.CannotCommit 1 ∧
      ((start.run (observedThenFreed.take 11)).2.step (.read 1 (.ofParts 1 0) 8)).1.isOk = false ∧
      (start.run observedThenFreed).2.CannotCommit 1 := by
  refine ⟨_, rfl, ?_, ?_, ?_⟩
  · exact @run_frees_conflict { size := 8, align := 8 } _ rfl observedThenFreed (by decide +kernel)
  · have hconflict := @run_frees_conflict { size := 8, align := 8 } _ rfl
      (observedThenFreed.take 11) (by decide +kernel)
    exact hconflict.overtaken 1 2 (.read ⟨0, 0⟩ (List.replicate 8 0)) _ _
      (.of_length (by decide +kernel)) (List.suffix_refl _)
      ⟨[.accessed 2 (.write ⟨0, 0⟩ [1, 2, 3, 4, 5, 6, 7, 8]),
        .accessed 1 (.read ⟨1, 0⟩ (List.replicate 8 0))], rfl⟩ (by decide +kernel)
  · have hconflict := @run_frees_conflict { size := 8, align := 8 } _ rfl observedThenFreed
      (by decide +kernel)
    exact hconflict.later (observedThenFreed.take 9) 2 (.ofParts 1 0) [.finish 2]
      (.read 1 (.ofParts 1 0) 8) [] 1 1 _ _ rfl (by decide) rfl (by decide +kernel)
      (by decide +kernel) (by decide +kernel) rfl (by decide +kernel) (.read (by decide +kernel))

/-- One transaction uses a segment, then another one frees the segment, writes
    a word that the first one has not accessed, and commits. The first one then
    reads that word. -/
def usedThenFreed : List Operation :=
  [.begin false, .alloc 0 8 true, .finish 0, .begin false, .read 1 (.ofParts 1 0) 8, .begin false,
    .free 2 (.ofParts 1 0), .write 2 Region.start [1, 2, 3, 4, 5, 6, 7, 8], .finish 2,
    .read 1 Region.start 8]

/-- The first of the two transactions commits, although it has used the segment
    before the other one has freed it, and has read what the other one committed. -/
theorem free_after_use_not_noticed :
    ∃ start, create { size := 8, align := 8 } = .ok start ∧ start.Orderly usedThenFreed ∧
      ∃ after : Nat → Session, (∀ n, after n = (start.run (usedThenFreed.take n)).2) ∧
        ((after 1).alloc 0 8 true).1 = some (.ok (.ofParts 1 0)) ∧
        ((after 2).finish 0).1 = some true ∧
        ((after 3).begin false).1 = .started 1 ∧
        ((after 4).read 1 (.ofParts 1 0) 8).1 = some (.ok (List.replicate 8 0)) ∧
        ((after 5).begin false).1 = .started 2 ∧
        ((after 6).free 2 (.ofParts 1 0)).1 = some (.ok ()) ∧
        ((after 7).write 2 Region.start [1, 2, 3, 4, 5, 6, 7, 8]).1 = some (.ok ()) ∧
        ((after 8).finish 2).1 = some true ∧
        ((after 9).read 1 Region.start 8).1 = some (.ok [1, 2, 3, 4, 5, 6, 7, 8]) ∧
        ((after 10).finish 1).1 = some true := by
  refine ⟨_, rfl, by decide +kernel, _, fun _ => rfl, ?_⟩
  decide +kernel

end Session

end TransactionalMemory
