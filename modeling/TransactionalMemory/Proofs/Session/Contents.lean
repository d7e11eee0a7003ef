import TransactionalMemory.Proofs.Session.Readers

/-! # The committed contents of a region

    What a region holds for good is one segment for each slot in use, with the
    committed values of its words. A segment that an open transaction has
    allocated does not belong to it yet, and one whose free is committed does
    not belong to it any more, although readers may still see it.

    The idea of this file is that only a commit changes the committed contents,
    and that the change is the one that its transaction asked for:

    1. a slot that it freed is empty from then on;
    2. a slot that it allocated holds what it held for the transaction alone;
    3. a word that it wrote has the value that it wrote last.

    So the contents after an orderly run are those before it, changed by the
    commits of the run, one after the other. -/

namespace TransactionalMemory

/-- A segment in a slot, with the committed value of each of its words. -/
structure Holding where
  /-- The number of the segment. -/
  segment : Nat
  /-- The committed value of a word; `none` behind the last one. -/
  values : Nat → Option (List UInt8)

/-- What is held for good, slot by slot. -/
abbrev Contents : Type := Nat → Option Holding

/-- The segment with some of its words written. -/
def Holding.overwrite (x : Holding) (written : WordRef → Option (List UInt8)) : Holding where
  segment := x.segment
  values w := (x.values w).map fun old => (written ⟨x.segment, w⟩).getD old

/-- What a transaction brings about by its commit. -/
structure Change where
  /-- What it wrote last to each word. -/
  written : WordRef → Option (List UInt8)
  /-- The slots that it allocated. -/
  allocated : List Nat
  /-- What the slots held right before the commit, seen from inside. -/
  inside : Contents
  /-- The slots that it freed. -/
  freed : List Nat

def Change.apply (c : Change) (contents : Contents) : Contents := fun i =>
  if i ∈ c.freed then none
  else (if i ∈ c.allocated then c.inside i else contents i).map (·.overwrite c.written)

namespace Region

/-- Slot `i` holds segment `n`, and the free of the segment is not committed. -/
def Occupied (r : Region) (i n : Nat) : Prop :=
  r.table.lookup i = .live n ∨ r.table.lookup i = .freeing n

/-- What a slot holds, no matter who has allocated it. -/
def holding? (r : Region) (i : Nat) : Option Holding :=
  match r.table.lookup i with
  | .live n | .freeing n => some ⟨n, fun w => r.committed? ⟨n, w⟩⟩
  | .retired _ | .vacant => none

variable {r r' : Region} {i n m : Nat}

theorem Occupied.segment? (h : r.Occupied i n) : (r.table.lookup i).segment? = some n := by
  rcases h with h | h
  · rw [h]; rfl
  · rw [h]; rfl

theorem Occupied.isOccupied (h : r.Occupied i n) : (r.table.lookup i).isOccupied = true := by
  rcases h with h | h
  · rw [h]; rfl
  · rw [h]; rfl

theorem Occupied.holding?_eq (h : r.Occupied i n) :
    r.holding? i = some ⟨n, fun w => r.committed? ⟨n, w⟩⟩ := by
  unfold holding?
  rcases h with h | h
  · rw [h]
  · rw [h]

theorem holding?_eq_none (h : ∀ n, ¬ r.Occupied i n) : r.holding? i = none := by
  unfold holding?
  split
  next n hn => exact absurd (.inl hn) (h n)
  next n hn => exact absurd (.inr hn) (h n)
  next => rfl
  next => rfl

theorem occupied_congr (h : r'.table.lookup i = r.table.lookup i) :
    r'.Occupied i n ↔ r.Occupied i n := by
  unfold Occupied
  rw [h]

end Region

def Contents.after (contents : Contents) (commits : List (Handle × Change)) : Contents :=
  commits.foldl (fun contents commit => commit.2.apply contents) contents

namespace Session

/-- An open transaction has allocated slot `i`. -/
def Provisional (s : Session) (i : Nat) : Prop := ∃ h t, s.open? h = some t ∧ i ∈ t.allocated

/-- Whether an open transaction has allocated slot `i` can be computed. -/
theorem provisional_iff {s : Session} {i : Nat} :
    s.Provisional i ↔ ∃ h ∈ s.openHandles, ∃ t ∈ s.open? h, i ∈ t.allocated := by
  constructor
  · rintro ⟨h, t, ho, hi⟩
    refine ⟨h, ?_, t, ho, hi⟩
    rw [openHandles, List.mem_filter, List.mem_range, ho]
    exact ⟨lt_size_of_open ho, rfl⟩
  · rintro ⟨h, -, t, ho, hi⟩
    exact ⟨h, t, ho, hi⟩

instance (s : Session) (i : Nat) : Decidable (s.Provisional i) :=
  decidable_of_iff _ provisional_iff.symm

def contents (s : Session) : Contents := fun i =>
  if s.Provisional i then none else s.region.holding? i

/-- What transaction `h` would bring about by committing now. -/
def change (s : Session) (hist : History) (h : Handle) : Change where
  written ref := hist.lastWrite h ref
  allocated := (s.open? h).elim [] Transaction.allocated
  inside := s.region.holding?
  freed := (s.open? h).elim [] Transaction.freed

/-- The commit that an operation is, if it is one. -/
def commit? (s : Session) (hist : History) : Operation → Option (Handle × Change)
  | .finish h => if (s.finish h).1 = some true then some (h, s.change hist h) else none
  | .begin _ | .read .. | .write .. | .alloc .. | .free .. | .abort _ | .abandon _ | .collect =>
    none

/-- The commits of a run that goes on with a history, in their order. -/
def commits (s : Session) (hist : History) : List Operation → List (Handle × Change)
  | [] => []
  | operation :: rest =>
    (s.commit? hist operation).toList ++
      (s.step operation).2.commits (s.events operation ++ hist) rest

variable {s s' : Session} {h k : Handle} {t t' : Transaction} {r' : Region} {i n : Nat}
  {hist events : History}

/-! ## Segments that are there for good -/

/-- Slot `i` holds segment `n` for good. -/
def Established (s : Session) (i n : Nat) : Prop := s.region.Occupied i n ∧ ¬ s.Provisional i

theorem Established.contents_eq (h : s.Established i n) :
    s.contents i = some ⟨n, fun w => s.region.committed? ⟨n, w⟩⟩ := by
  rw [contents, if_neg h.2]
  exact h.1.holding?_eq

theorem contents_eq_none (h : ∀ n, ¬ s.Established i n) : s.contents i = none := by
  unfold contents
  split
  next => rfl
  next hi => exact Region.holding?_eq_none fun n hn => h n ⟨hn, hi⟩

/-- The contents of two sessions are the same if the same segments are there for
    good, with the same values. -/
theorem contents_congr (hsame : ∀ i n, s'.Established i n ↔ s.Established i n)
    (hvalues : ∀ i n, s.Established i n → s'.Established i n →
      ∀ w, s'.region.committed? ⟨n, w⟩ = s.region.committed? ⟨n, w⟩) :
    s'.contents = s.contents := by
  funext i
  by_cases hi : ∃ n, s.Established i n
  · obtain ⟨n, hn⟩ := hi
    have hn' := (hsame i n).2 hn
    rw [hn.contents_eq, hn'.contents_eq]
    congr 2
    exact funext (hvalues i n hn hn')
  · have hnone : ∀ n, ¬ s.Established i n := fun n hn => hi ⟨n, hn⟩
    rw [contents_eq_none hnone, contents_eq_none fun n hn => hnone n ((hsame i n).1 hn)]

/-! ### Slots of open transactions -/

/-- One transaction goes on with the same slots, as far as slot `i` is concerned. -/
theorem provisional_put (ho : s.open? h = some t) (hsame : i ∈ t'.allocated ↔ i ∈ t.allocated) :
    (s.put h (some t') r').Provisional i ↔ s.Provisional i := by
  constructor
  · rintro ⟨k, u, hu, hi⟩
    by_cases hk : k = h
    · subst hk
      rw [open?_put_self ho] at hu
      cases hu
      exact ⟨k, t, ho, hsame.1 hi⟩
    · exact ⟨k, u, (open?_put_ne hk).symm.trans hu, hi⟩
  · rintro ⟨k, u, hu, hi⟩
    by_cases hk : k = h
    · subst hk
      cases ho.symm.trans hu
      exact ⟨k, t', open?_put_self ho, hsame.2 hi⟩
    · exact ⟨k, u, (open?_put_ne hk).trans hu, hi⟩

/-- One transaction is closed. -/
theorem provisional_put_none (ho : s.open? h = some t) :
    s.Provisional i ↔ i ∈ t.allocated ∨ (s.put h none r').Provisional i := by
  constructor
  · rintro ⟨k, u, hu, hi⟩
    by_cases hk : k = h
    · subst hk
      cases ho.symm.trans hu
      exact .inl hi
    · exact .inr ⟨k, u, (open?_put_ne hk).trans hu, hi⟩
  · rintro (hi | ⟨k, u, hu, hi⟩)
    · exact ⟨h, t, ho, hi⟩
    · exact ⟨k, u, (open?_of_put_none ho hu).1, hi⟩

/-- The slots are as they were, and the transaction has allocated none. -/
theorem established_put (ho : s.open? h = some t) (hallocated : t'.allocated = t.allocated)
    (hoccupied : r'.Occupied i n ↔ s.region.Occupied i n) :
    (s.put h (some t') r').Established i n ↔ s.Established i n :=
  and_congr hoccupied (not_congr (provisional_put ho (by rw [hallocated])))

/-! ### One effect -/

/-- A new transaction has allocated nothing. -/
theorem established_began (hb : Begins s s' t) : s'.Established i n ↔ s.Established i n := by
  refine and_congr (Region.occupied_congr (by rw [hb.table_eq])) (not_congr ⟨?_, ?_⟩)
  · rintro ⟨k, u, hu, hi⟩
    rcases hb.before hu with hold | ⟨-, rfl⟩
    · exact ⟨k, u, hold, hi⟩
    · rw [hb.unlogged.2.2.1] at hi
      cases hi
  · rintro ⟨k, u, hu, hi⟩
    exact ⟨k, u, hb.after hu, hi⟩

/-- A slot that is allocated was vacant, and belongs to the transaction alone. -/
theorem established_allocated {j : Nat} (ho : s.open? h = some t) {size : Nat}
    (hall : s.region.Allocates r' size j) :
    (s.put h (some { t with allocated := j :: t.allocated }) r').Established i n ↔
      s.Established i n := by
  by_cases hi : i = j
  · subst hi
    constructor
    · intro hn
      exact absurd ⟨h, _, open?_put_self ho, List.mem_cons_self⟩ hn.2
    · intro hn
      have hoccupied := hn.1.isOccupied
      rw [hall.vacant] at hoccupied
      cases hoccupied
  · refine and_congr (Region.occupied_congr (hall.others i hi)) (not_congr (provisional_put ho ?_))
    rw [List.mem_cons]
    exact or_iff_right hi

/-- A segment that is being freed is still there for good. -/
theorem occupied_mark {r : Region} {j m : Nat} (hlive : r.table.lookup j = .live m) :
    Region.Occupied { r with table := r.table.mark j } i n ↔ r.Occupied i n := by
  by_cases hi : i = j
  · subst hi
    have hmarked : (r.table.mark i).lookup i = .freeing m := by
      rw [SlotTable.mark, SlotTable.lookup_set_self, hlive]
      rfl
    unfold Region.Occupied
    rw [hmarked, hlive]
    constructor
    · rintro (hn | hn)
      · cases hn
      · cases hn
        exact .inl rfl
    · rintro (hn | hn)
      · cases hn
        exact .inr rfl
      · cases hn
  · exact Region.occupied_congr (SlotTable.lookup_set_ne _ _ (Ne.symm hi))

/-- The end of a transaction without a commit takes away only what the
    transaction had allocated. -/
theorem established_given_up (hs : s.Sound) (ho : s.open? h = some t) :
    (s.put h none (t.conclusion s.region false)).Established i n ↔ s.Established i n := by
  have hlookup := t.lookup_conclusion s.region false i
  by_cases hi : i ∈ t.allocated
  · -- It is not there before, for the transaction is open, nor afterwards.
    rw [if_pos (show i ∈ t.emptied false from hi)] at hlookup
    constructor
    · intro hn
      have hoccupied : ((t.conclusion s.region false).table.lookup i).isOccupied = true :=
        hn.1.isOccupied
      rw [hlookup] at hoccupied
      cases hoccupied
    · intro hn
      exact absurd ⟨h, t, ho, hi⟩ hn.2
  · rw [if_neg (show i ∉ t.emptied false from hi)] at hlookup
    refine and_congr ?_ (not_congr ?_)
    · show (t.conclusion s.region false).Occupied i n ↔ s.region.Occupied i n
      split at hlookup
      next hif =>
        obtain ⟨m, hm⟩ := (hs.logged h t ho).freed i hif
        unfold Region.Occupied
        rw [hlookup, hm]
        simp [Slot.relinked]
      next => exact Region.occupied_congr hlookup
    · rw [provisional_put_none ho]
      exact (or_iff_right hi).symm

/-- A collection takes away only what has left use already. -/
theorem established_collected (hs : s.Sound) :
    Established { s with region := s.region.collect.2 } i n ↔ s.Established i n := by
  have hsheds := Region.collect_spec hs.slotted hs.inOrder hs.tallies
  refine and_congr ⟨?_, ?_⟩ Iff.rfl
  · intro hn
    have hkept : s.region.collect.2.table.lookup i = s.region.table.lookup i := by
      refine (s.region.lookup_collect i).resolve_right fun hvacant => ?_
      have hoccupied : (s.region.collect.2.table.lookup i).isOccupied = true := hn.isOccupied
      rw [hvacant] at hoccupied
      cases hoccupied
    exact (Region.occupied_congr hkept).1 hn
  · intro hn
    exact (Region.occupied_congr (hsheds.used i hn.isOccupied)).2 hn

/-- No effect but a commit changes which segments are there for good. -/
theorem established_effect (hs : s.Sound) (e : Effect True s events s')
    (hquiet : ∀ h, .ended h true ∉ events) : s'.Established i n ↔ s.Established i n := by
  cases e with
  | began identified => exact established_began (begins_enter identified)
  | @accessed h t t' a r' i isOpen readWrite found step =>
    obtain ⟨_, _, _, _, hbecomes, _, rfl, _⟩ := step.inv
    exact established_put isOpen (t.allocated_log ..)
      (Region.occupied_congr (by rw [hbecomes.toSameButWords.table_eq]))
  | doomed isOpen => exact established_put isOpen rfl Iff.rfl
  | allocated isOpen readWrite whole granted =>
    exact established_allocated isOpen (Region.allocate?_spec hs.slotted granted)
  | missed fails =>
    obtain ⟨table, hlookup, rfl⟩ := fails.inv
    exact and_congr (Region.occupied_congr (hlookup i)) Iff.rfl
  | freed isOpen readWrite live removable => exact established_put isOpen rfl (occupied_mark live)
  | @ended h t committed isOpen valid gives =>
    cases committed with
    | false => exact established_given_up hs isOpen
    | true => exact absurd List.mem_cons_self (hquiet h)
  | collected => exact established_collected hs

/-- Nor does a chain of effects without a commit. -/
theorem established_effects (hs : s.Sound) (e : Effects True s events s')
    (hquiet : ∀ h, .ended h true ∉ events) : s'.Established i n ↔ s.Established i n := by
  induction e with
  | nil => exact Iff.rfl
  | @snoc s' s'' events more before last ih =>
    have hlast := established_effect (i := i) (n := n) (hs.effects before) last fun h hmem =>
      hquiet h (List.mem_append_left _ hmem)
    exact hlast.trans (ih fun h hmem => hquiet h (List.mem_append_right _ hmem))

/-- After a commit, a segment is there for good if it was there or the transaction
    had allocated it, and the transaction has not freed it. -/
theorem established_committed (hs : s.Sound) (ho : s.open? h = some t) :
    (s.put h none (t.conclusion s.region true)).Established i n ↔
      i ∉ t.freed ∧ s.region.Occupied i n ∧ (i ∈ t.allocated ∨ ¬ s.Provisional i) := by
  have hlookup := t.lookup_conclusion s.region true i
  rw [if_neg (show i ∉ t.emptied true from List.not_mem_nil)] at hlookup
  by_cases hif : i ∈ t.freed
  · -- The slot is retired.
    rw [if_pos hif, if_pos rfl] at hlookup
    constructor
    · intro hn
      obtain ⟨m, hm⟩ := (hs.logged h t ho).freed i hif
      have hoccupied : ((t.conclusion s.region true).table.lookup i).isOccupied = true :=
        hn.1.isOccupied
      rw [hlookup, hm] at hoccupied
      cases hoccupied
    · intro hn
      exact absurd hif hn.1
  · rw [if_neg hif] at hlookup
    have howner : (¬ (s.put h none (t.conclusion s.region true)).Provisional i) ↔
        (i ∈ t.allocated ∨ ¬ s.Provisional i) := by
      constructor
      · intro hunowned
        by_cases hi : i ∈ t.allocated
        · exact .inl hi
        · refine .inr fun hprovisional => hunowned ?_
          exact ((provisional_put_none ho).1 hprovisional).resolve_left hi
      · rintro (hi | hunowned) ⟨k, u, hu, hiu⟩
        · -- Nobody else has allocated the same slot.
          obtain ⟨hu, hk⟩ := open?_of_put_none ho hu
          exact hk (hs.allocatedApart k h u t i hu ho hiu hi)
        · exact hunowned ((provisional_put_none ho).2 (.inr ⟨k, u, hu, hiu⟩))
    rw [and_iff_right hif]
    exact and_congr (Region.occupied_congr hlookup) howner

/-- Only an end without a commit can be out of order. -/
theorem allows_of_commit (hcommit : (s.finish h).1 = some true) : s.Allows (.finish h) := by
  intro hlost
  rw [hcommit] at hlost
  cases hlost

/-- The same after the collection that comes with the commit. -/
theorem established_finish (hs : s.Sound) (ho : s.open? h = some t)
    (hcommit : (s.finish h).1 = some true) :
    (s.finish h).2.Established i n ↔
      i ∉ t.freed ∧ s.region.Occupied i n ∧ (i ∈ t.allocated ∨ ¬ s.Provisional i) := by
  rw [finish_of_open ho] at hcommit ⊢
  have hvalid := Option.some.inj hcommit
  have hended : Effect True s [.ended h true] (s.put h none (t.conclusion s.region true)) := by
    refine .ended ho (fun _ => ?_) fun _ hlost => by cases hlost
    rwa [Bool.and_eq_true, Bool.not_eq_true'] at hvalid
  rw [hvalid]
  exact (established_collected (hs.effect hended)).trans (established_committed hs ho)

/-! ## The values of their words -/

/-- A segment that is in use before and after has the same words. -/
theorem isSome_committed?_effects (hs : s.Sound) (hs' : s'.Sound) (e : Effects True s events s')
    (hn : s.region.Occupied i n) (hn' : s'.region.Occupied i n) (w : Nat) :
    (s'.region.committed? ⟨n, w⟩).isSome = (s.region.committed? ⟨n, w⟩).isSome := by
  obtain ⟨⟨seg, hseg, -⟩, -⟩ := Region.Keeps.unreleased (e := 0) (.inl hn.segment?) hs.slotted
  obtain ⟨⟨seg', hseg', -⟩, -⟩ := Region.Keeps.unreleased (e := 0) (.inl hn'.segment?) hs'.slotted
  have hlt := Region.lt_size_of_slotOf? (hs.slotted.held i n hn.segment?)
  obtain ⟨old, hold, hlayout⟩ := (ages_effects hlt e).layout seg' hseg'
  cases hseg.symm.trans hold
  have hwords : seg'.words = seg.words := congrArg (fun l => l.2.2.2) hlayout
  unfold Region.committed?
  rw [hseg, hseg', Option.bind_some, Option.bind_some, hwords]
  split
  · rfl
  · rfl

/-! ## One operation -/

/-- An operation that is no commit changes nothing of what is held for good. -/
theorem contents_of_quiet (hs : s.Sound) (hrep : Represents hist s) {operation : Operation}
    (hallowed : s.Allows operation)
    (hquiet : ∀ h, operation = .finish h → (s.finish h).1 ≠ some true) :
    (s.step operation).2.contents = s.contents := by
  have heffects : Effects True s _ _ := effects_step hs.toSteady operation fun _ => hallowed
  have hs' := hs.effects heffects
  have hevents : ∀ h, .ended h true ∉ s.events operation := fun h hmem =>
    s.not_commit_of_mem_events hquiet _ hmem h rfl
  refine contents_congr (fun i n => established_effects hs heffects hevents) fun i n hn hn' w => ?_
  have hsome := isSome_committed?_effects hs hs' heffects hn.1 hn'.1 w
  cases hold : s.region.committed? ⟨n, w⟩ with
  | none => simpa [hold] using hsome
  | some old =>
    rw [hold] at hsome
    obtain ⟨new, hnew⟩ := Option.isSome_iff_exists.1 hsome
    rw [hnew, committed?_step hs.toSteady hrep hquiet hold hnew]

/-- The words that a commit leaves have the values that the transaction wrote last. -/
theorem committed?_change (hs : s.Sound) (hrep : Represents hist s)
    (hcommit : (s.finish h).1 = some true) (hn : s.region.Occupied i n)
    (hn' : (s.finish h).2.region.Occupied i n) (w : Nat) :
    (s.finish h).2.region.committed? ⟨n, w⟩ =
      (s.region.committed? ⟨n, w⟩).map fun old => (hist.lastWrite h ⟨n, w⟩).getD old := by
  have heffects : Effects True s _ _ := effects_finish h fun _ => allows_of_commit hcommit
  have hsome := isSome_committed?_effects hs (hs.effects heffects) heffects hn hn' w
  cases hnew : (s.finish h).2.region.committed? ⟨n, w⟩ with
  | none =>
    have hold : s.region.committed? ⟨n, w⟩ = none := by simpa [hnew] using hsome
    rw [hold]
    rfl
  | some new =>
    obtain ⟨old, hold, hvalue⟩ := committed?_finish hs.toSteady hrep hcommit hnew
    rw [hold, hvalue]
    rfl

/-- A commit changes what its transaction has written, allocated and freed. -/
theorem contents_finish (hs : s.Sound) (hrep : Represents hist s)
    (hcommit : (s.finish h).1 = some true) :
    (s.finish h).2.contents = (s.change hist h).apply s.contents := by
  cases ho : s.open? h with
  | none =>
    rw [finish, ho] at hcommit
    cases hcommit
  | some t =>
    funext i
    have hchange : (s.change hist h).apply s.contents i =
        if i ∈ t.freed then none
        else (if i ∈ t.allocated then s.region.holding? i else s.contents i).map
          (·.overwrite fun ref => hist.lastWrite h ref) := by
      simp only [Change.apply, change, ho, Option.elim_some]
    rw [hchange]
    have hestablished := fun n => established_finish (i := i) (n := n) hs ho hcommit
    by_cases hi : ∃ n, (s.finish h).2.Established i n
    · obtain ⟨n, hn'⟩ := hi
      obtain ⟨hif, hn, howner⟩ := (hestablished n).1 hn'
      -- Before the commit the slot held the same segment, seen by all or from inside.
      have hheld : (if i ∈ t.allocated then s.region.holding? i else s.contents i)
          = some ⟨n, fun w => s.region.committed? ⟨n, w⟩⟩ := by
        split
        next => exact hn.holding?_eq
        next hia => exact Established.contents_eq ⟨hn, howner.resolve_left hia⟩
      rw [if_neg hif, hheld, hn'.contents_eq, Option.map_some, Holding.overwrite]
      congr 2
      exact funext (committed?_change hs hrep hcommit hn hn'.1)
    · -- Nothing is there after the commit: it was freed, or nothing was there before.
      have hgone : (s.finish h).2.contents i = none := by
        apply contents_eq_none
        exact fun n hn => hi ⟨n, hn⟩
      rw [hgone]
      split
      next => rfl
      next hif =>
        have hnone : ∀ n, s.region.Occupied i n → ¬ (i ∈ t.allocated ∨ ¬ s.Provisional i) :=
          fun n hn howner => hi ⟨n, (hestablished n).2 ⟨hif, hn, howner⟩⟩
        have hheld : (if i ∈ t.allocated then s.region.holding? i else s.contents i) = none := by
          split
          next hia => exact Region.holding?_eq_none fun n hn => hnone n hn (.inl hia)
          next => exact contents_eq_none fun n hn => hnone n hn.1 (.inr hn.2)
        rw [hheld, Option.map_none]

/-! ## Runs -/

/-- An operation changes the contents by its commit, if it is one. -/
theorem contents_step (hs : s.Sound) (hrep : Represents hist s) {operation : Operation}
    (hallowed : s.Allows operation) :
    (s.step operation).2.contents = s.contents.after (s.commit? hist operation).toList := by
  by_cases hcommit : ∃ h, operation = .finish h ∧ (s.finish h).1 = some true
  · obtain ⟨h, rfl, hcommit⟩ := hcommit
    rw [commit?, if_pos hcommit]
    exact contents_finish hs hrep hcommit
  · have hquiet : ∀ h, operation = .finish h → (s.finish h).1 ≠ some true :=
      fun h heq hcommitted => hcommit ⟨h, heq, hcommitted⟩
    have hnone : s.commit? hist operation = none := by
      cases operation with
      | finish h => exact if_neg (hquiet h rfl)
      | _ => rfl
    rw [hnone]
    exact contents_of_quiet hs hrep hallowed hquiet

/-- The commits of a run that is cut anywhere. -/
theorem commits_append (s : Session) (hist : History) (first second : List Operation) :
    s.commits hist (first ++ second) =
      s.commits hist first ++ (s.run first).2.commits (s.record hist first) second := by
  induction first generalizing s hist with
  | nil => rfl
  | cons operation rest ih =>
    rw [List.cons_append, commits, ih, ← List.append_assoc]
    rfl

/-- Whoever commits in a run ends in it, with a commit. -/
theorem ended_of_mem_commits {operations : List Operation} {commit : Handle × Change}
    (hmem : commit ∈ s.commits hist operations) :
    .ended commit.1 true ∈ s.record [] operations := by
  induction operations generalizing s hist with
  | nil => cases hmem
  | cons operation rest ih =>
    rw [record, record_eq_append, List.mem_append]
    rcases List.mem_append.1 hmem with hhead | htail
    · right
      cases operation with
      | finish h =>
        rw [commit?] at hhead
        split at hhead
        next hcommit =>
          rw [Option.toList_some, List.mem_singleton] at hhead
          simp [hhead, events, hcommit]
        next => cases hhead
      | _ => cases hhead
    · exact .inl (ih htail)

/-- After an orderly run, the committed contents are those from before, changed
    by the commits of the run, one after the other. -/
theorem contents_run (hs : s.Sound) (hrep : Represents hist s) {operations : List Operation}
    (horderly : s.Orderly operations) :
    (s.run operations).2.contents = s.contents.after (s.commits hist operations) := by
  induction operations generalizing s hist with
  | nil => rfl
  | cons operation rest ih =>
    obtain ⟨hallowed, hrest⟩ := horderly
    have heffects : Effects True s _ _ := effects_step hs.toSteady operation fun _ => hallowed
    have hafter := ih (hs.effects heffects) (hrep.effects hs.toSteady heffects) hrest
    rw [commits, Contents.after, List.foldl_append]
    rw [contents_step hs hrep hallowed] at hafter
    exact hafter

end Session

end TransactionalMemory
