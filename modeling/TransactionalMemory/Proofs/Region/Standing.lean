import TransactionalMemory.Proofs.Region.Words

/-! # What stands in a word

    A cell does not say which of the two copies of a word is the valid one. Here
    a word is taken as it is stored, with both of its copies. What stands in it
    is the choice of the valid copy, the bytes of that copy, and the commit
    count. Reads, writes and releases do not change what stands in any word:
    a write goes to the copy that is not valid, and a release gives up nothing
    but the write and the claim. -/

namespace TransactionalMemory

structure Stored where
  control : Control
  /-- The bytes in each of the copies. -/
  bytes : Copy → List UInt8

namespace Stored

def standing (x : Stored) : Copy × List UInt8 × Nat :=
  (x.control.valid, x.bytes x.control.valid, x.control.seq)

/-- The word after its accessor, if it is this one, has given it up. -/
def releasedBy (x : Stored) (id : TransactionId) : Stored :=
  if x.control.ownedBy id then { x with control := x.control.released } else x

theorem standing_releasedBy (x : Stored) (id : TransactionId) :
    (x.releasedBy id).standing = x.standing := by
  unfold releasedBy
  split <;> rfl

/-- What is given up twice is given up once. -/
theorem releasedBy_releasedBy (x : Stored) (id : TransactionId) :
    (x.releasedBy id).releasedBy id = x.releasedBy id := by
  unfold releasedBy
  by_cases hown : x.control.ownedBy id = true
  · have hnot : x.control.released.ownedBy id = false := rfl
    simp only [hown, if_true, hnot, Bool.false_eq_true, if_false]
  · simp only [hown, Bool.false_eq_true, if_false]

end Stored

/-! ## Words of a segment -/

namespace Segment

variable {s s' s'' : Segment}

def stored (s : Segment) (w : Nat) : Stored where
  control := s.control w
  bytes := fun c => s.load c w

/-- The same words stand in both segments. -/
structure Stands (s s' : Segment) : Prop where
  words : s'.words = s.words
  standing : ∀ w, (s'.stored w).standing = (s.stored w).standing

namespace Stands

theorem refl (s : Segment) : s.Stands s := ⟨rfl, fun _ => rfl⟩

theorem trans (h : s.Stands s') (h' : s'.Stands s'') : s.Stands s'' :=
  ⟨h'.words.trans h.words, fun w => (h'.standing w).trans (h.standing w)⟩

end Stands

/-- A control is stored as it is, if its commit count is that of the word. -/
theorem control_setControl_of_seq_eq (s : Segment) {w : Nat} {c : Control} (hw : w < s.words)
    (hseq : c.seq = (s.control w).seq) : (s.setControl w c).control w = c :=
  control_setControl_of_lt s hw (hseq ▸ s.seq_control_lt w)

theorem setControl_of_words_le (s : Segment) {w : Nat} (hw : s.words ≤ w) (c : Control) :
    s.setControl w c = s := by
  unfold setControl
  rw [Array.setIfInBounds_eq_of_size_le hw]

/-- What stands in a word does not depend on who has claimed or written it. -/
theorem stands_setControl (s : Segment) {w : Nat} {c : Control}
    (hvalid : c.valid = (s.control w).valid) (hseq : c.seq = (s.control w).seq) :
    s.Stands (s.setControl w c) := by
  refine ⟨s.words_setControl w c, fun v => ?_⟩
  by_cases hw : w < s.words
  · by_cases hv : w = v
    · subst hv
      simp only [stored, Stored.standing, load_setControl, s.control_setControl_of_seq_eq hw hseq,
        hvalid, hseq]
    · simp only [stored, Stored.standing, load_setControl, s.control_setControl_ne c hv]
  · rw [s.setControl_of_words_le (Nat.le_of_not_lt hw)]

/-- What is put into the copy that is not valid does not stand. -/
theorem stands_store (s : Segment) {w : Nat} {c : Copy} (hc : c = (s.control w).scratch)
    (bytes : List UInt8) : s.Stands (s.store c w bytes) := by
  refine ⟨s.words_store c w bytes, fun v => ?_⟩
  simp only [stored, Stored.standing, control_store]
  by_cases hv : w = v
  · subst hv
    have hne : c ≠ (s.control w).valid := hc ▸ Copy.other_ne _
    rw [load_store_of_copy_ne s hne]
  · rw [load_store_of_word_ne s _ _ hv]

theorem stands_readWord (s : Segment) (id : TransactionId) (w : Nat) :
    s.Stands (s.readWord id w).2 := by
  unfold readWord
  dsimp only
  split
  · split
    · exact .refl s
    · exact .refl s
  · split
    · exact s.stands_setControl rfl rfl
    · exact .refl s

theorem stands_beginWrite (s : Segment) (id : TransactionId) (w : Nat) (bytes : List UInt8) :
    s.Stands (s.beginWrite id w bytes) := by
  have hset : s.Stands (s.setControl w ((s.control w).writtenBy id)) :=
    s.stands_setControl rfl rfl
  refine hset.trans (stands_store _ ?_ bytes)
  -- The scratch copy is the same one after the claim.
  exact congrArg Copy.other (congrArg Prod.fst (hset.standing w)).symm

theorem stands_writeWord (s : Segment) (id : TransactionId) (w : Nat) (bytes : List UInt8) :
    s.Stands (s.writeWord id w bytes).2 := by
  unfold writeWord
  dsimp only
  split
  · split
    · exact s.stands_store rfl bytes
    · exact .refl s
  · split
    · exact s.stands_beginWrite id w bytes
    · split
      · exact s.stands_beginWrite id w bytes
      · exact .refl s

/-- Releasing a word gives up that word, and leaves every other one as it is. -/
theorem stored_releaseWord (s : Segment) (id : TransactionId) {w v : Nat} (hv : v < s.words) :
    (s.releaseWord id w).stored v =
      if v = w then (s.stored v).releasedBy id else s.stored v := by
  unfold releaseWord
  by_cases hown : (s.control w).ownedBy id = true
  · simp only [hown, if_true]
    by_cases heq : v = w
    · subst heq
      have hcontrol : (s.setControl v (s.control v).released).control v = (s.control v).released :=
        s.control_setControl_of_seq_eq hv rfl
      have howned : (s.stored v).control.ownedBy id = true := hown
      rw [if_pos rfl, Stored.releasedBy, if_pos howned]
      simp only [stored, load_setControl, hcontrol]
    · rw [if_neg heq]
      simp only [stored, load_setControl, s.control_setControl_ne _ (Ne.symm heq)]
  · simp only [hown, Bool.false_eq_true, if_false]
    split
    next heq =>
      have howned : ¬ (s.stored v).control.ownedBy id = true := heq ▸ hown
      rw [Stored.releasedBy, if_neg howned]
    next => rfl

theorem words_releaseWord (s : Segment) (id : TransactionId) (w : Nat) :
    (s.releaseWord id w).words = s.words := by
  unfold releaseWord
  dsimp only
  split
  · exact s.words_setControl ..
  · rfl

end Segment

/-! ## Words of a region -/

namespace Region

variable {r r' r'' : Region}

/-- A word as it is stored, unless its segment was released or has no such word. -/
def stored? (r : Region) (ref : WordRef) : Option Stored :=
  (r.segment? ref.segment).bind fun s =>
    if ref.word < s.words then some (s.stored ref.word) else none

/-- What stands in a word, if there is such a word. -/
def standing? (r : Region) (ref : WordRef) : Option (Copy × List UInt8 × Nat) :=
  (r.stored? ref).map Stored.standing

theorem stored?_congr (h : r'.segments = r.segments) (ref : WordRef) :
    r'.stored? ref = r.stored? ref := by
  unfold stored? segment?
  rw [h]

theorem stored?_eq_some_iff {ref : WordRef} {x : Stored} :
    r.stored? ref = some x ↔
      ∃ s, r.segment? ref.segment = some s ∧ ref.word < s.words ∧ s.stored ref.word = x := by
  unfold stored?
  rcases r.segment? ref.segment with _ | s
  · simp
  · by_cases hw : ref.word < s.words <;> simp [hw]

/-- What stands in the words of one region stands in those of the other. -/
def Stands (r r' : Region) : Prop :=
  ∀ ref x, r.standing? ref = some x → r'.standing? ref = some x

theorem Stands.refl (r : Region) : r.Stands r := fun _ _ h => h

theorem stands_of_segments_eq (h : r'.segments = r.segments) : r.Stands r' := by
  intro ref x hx
  rwa [standing?, stored?_congr h]

/-- A segment in whose words the same stands is put in the place of a segment. -/
theorem stands_updateSegment {n : Nat} {s s' : Segment} (hn : r.segment? n = some s)
    (h : s.Stands s') : r.Stands (r.updateSegment n fun _ => s') := by
  intro ref x hx
  by_cases hm : n = ref.segment
  · obtain ⟨y, hy, rfl⟩ := Option.map_eq_some_iff.1 hx
    obtain ⟨s₀, hs₀, hw, rfl⟩ := stored?_eq_some_iff.1 hy
    rw [← hm] at hs₀
    cases hn.symm.trans hs₀
    have hself : (r.updateSegment n fun _ => s').segment? ref.segment = some s' := by
      rw [← hm, segment?_updateSegment_self, hn]; rfl
    refine Option.map_eq_some_iff.2 ⟨s'.stored ref.word, ?_, h.standing ref.word⟩
    exact stored?_eq_some_iff.2 ⟨s', hself, h.words ▸ hw, rfl⟩
  · rw [standing?, stored?, segment?_updateSegment_ne r _ hm]
    exact hx

/-- Releasing a word gives up that word, and leaves every other one as it is. -/
theorem stored?_releaseWord (r : Region) (id : TransactionId) (ref other : WordRef) :
    (r.updateSegment ref.segment fun s => s.releaseWord id ref.word).stored? other =
      if other = ref then (r.stored? other).map (·.releasedBy id) else r.stored? other := by
  unfold stored?
  by_cases hm : ref.segment = other.segment
  · have hword : other = ref ↔ other.word = ref.word := by
      cases other; cases ref; simp_all
    rw [← hm, segment?_updateSegment_self]
    rcases r.segment? ref.segment with _ | s
    · simp
    · simp only [Option.map_some, Option.bind_some, s.words_releaseWord]
      by_cases hw : other.word < s.words
      · simp only [hw, if_true, s.stored_releaseWord id hw, hword, Option.map_some]
        split <;> rfl
      · simp [hw]
  · have hne : other ≠ ref := fun heq => hm (heq ▸ rfl)
    rw [if_neg hne, segment?_updateSegment_ne r _ hm]

/-- Releasing words gives up those words, and leaves every other one as it is. -/
theorem stored?_settleWords (r : Region) (id : TransactionId) (refs : List WordRef)
    (ref : WordRef) :
    (r.settleWords id false refs).stored? ref =
      if ref ∈ refs then (r.stored? ref).map (·.releasedBy id) else r.stored? ref := by
  exact foldr_words (fun x => x.releasedBy_releasedBy id)
    (fun r first => r.stored?_releaseWord id first) r refs ref

end Region

end TransactionalMemory
