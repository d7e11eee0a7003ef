import TransactionalMemory.Proofs.Segment.Storage
import TransactionalMemory.Segment.Access

/-! # Words as cells

    A cell is a word without its representation: the committed value, the write
    that is pending, if any, the accessor and the commit count. Which of the
    two copies is valid, and what the scratch copy holds while no write is
    pending, does not appear in it.

    Every access to a word of a segment is an operation on its cell and leaves
    the cells of all other words as they were. -/

namespace TransactionalMemory

/-- A word, without its representation in two copies. -/
structure Cell where
  /-- The transaction that has claimed the word. -/
  accessor : Option TransactionId
  /-- The committed value. -/
  value : List UInt8
  /-- The write of the accessor, until it ends. -/
  pending : Option (List UInt8)
  /-- The commit count. -/
  seq : Nat

namespace Cell

/-- What the accessor sees: its own write, else the committed value. -/
def latest (c : Cell) : List UInt8 := c.pending.getD c.value

/-- The write that is pending for the given transaction. -/
def pendingOf (c : Cell) (id : TransactionId) : Option (List UInt8) :=
  if c.accessor = some id then c.pending else none

/-- Whether the transaction is granted access in this way. -/
def Grants (c : Cell) (id : TransactionId) : Grant → Prop
  | .claimed => c.accessor = none ∧ c.pending = none
  | .owned => c.accessor = some id
  | .observed seq => c.pending = none ∧ seq = c.seq ∧ ∃ u, u ≠ id ∧ c.accessor = some u

/-- The cell after access was granted for a read. -/
def granted (c : Cell) (id : TransactionId) : Grant → Cell
  | .claimed => { c with accessor := some id }
  | .owned | .observed _ => c

/-- The cell after a write of the transaction. -/
def wrote (c : Cell) (id : TransactionId) (bytes : List UInt8) : Cell :=
  { c with accessor := some id, pending := some bytes }

/-- The cell after the transaction has ended: if it was the accessor, its write
    has become the committed value or is given up. -/
def settled (c : Cell) (id : TransactionId) (committed : Bool) : Cell :=
  if c.accessor = some id then
    { accessor := none
      value := if committed then c.latest else c.value
      pending := none
      seq := if committed && c.pending.isSome then (c.seq + 1) % commitCounts else c.seq }
  else c

/-! ## What each operation leaves alone -/

theorem value_granted (c : Cell) (id : TransactionId) (g : Grant) :
    (c.granted id g).value = c.value := by cases g <;> rfl

theorem seq_granted (c : Cell) (id : TransactionId) (g : Grant) :
    (c.granted id g).seq = c.seq := by cases g <;> rfl

/-- A read changes the pending write of nobody. -/
theorem pendingOf_granted {c : Cell} {id : TransactionId} {g : Grant} (h : c.Grants id g)
    (u : TransactionId) : (c.granted id g).pendingOf u = c.pendingOf u := by
  cases g with
  | claimed => simp [granted, pendingOf, h.2]
  | owned => rfl
  | observed _ => rfl

theorem pendingOf_wrote_self (c : Cell) (id : TransactionId) (bytes : List UInt8) :
    (c.wrote id bytes).pendingOf id = some bytes := by simp [wrote, pendingOf]

/-- A write, when it is granted, changes the pending write of nobody else. -/
theorem pendingOf_wrote_ne {c : Cell} {id u : TransactionId} (bytes : List UInt8)
    (h : c.accessor = none ∨ c.accessor = some id) (hu : u ≠ id) :
    (c.wrote id bytes).pendingOf u = c.pendingOf u := by
  rcases h with h | h <;> simp [wrote, pendingOf, h, Ne.symm hu]

/-- What a granted read returns: the write of the transaction itself, else the
    committed value. -/
theorem latest_eq_of_grants {c : Cell} {id : TransactionId} {g : Grant} (h : c.Grants id g) :
    c.latest = (c.pendingOf id).getD c.value := by
  cases g with
  | claimed => simp [latest, pendingOf, h.1, h.2]
  | owned => simp [latest, pendingOf, show c.accessor = some id from h]
  | observed _ => simp [latest, pendingOf, h.1]

theorem settled_of_accessor_ne {c : Cell} {id : TransactionId} (h : c.accessor ≠ some id)
    (committed : Bool) : c.settled id committed = c := if_neg h

/-- Settling a cell twice is settling it once. -/
theorem settled_settled (c : Cell) (id : TransactionId) (committed : Bool) :
    (c.settled id committed).settled id committed = c.settled id committed := by
  by_cases h : c.accessor = some id
  · refine settled_of_accessor_ne ?_ committed
    simp [settled, h]
  · rw [settled_of_accessor_ne h, settled_of_accessor_ne h]

/-- The accessor is out of a settled cell. -/
theorem accessor_settled (c : Cell) (id : TransactionId) (committed : Bool) :
    (c.settled id committed).accessor = if c.accessor = some id then none else c.accessor := by
  unfold settled
  split <;> rfl

/-- A commit makes the pending write of the transaction the committed value. -/
theorem value_settled (c : Cell) (id : TransactionId) (committed : Bool) :
    (c.settled id committed).value =
      if committed then (c.pendingOf id).getD c.value else c.value := by
  by_cases h : c.accessor = some id <;> simp [settled, pendingOf, latest, h]

theorem seq_settled (c : Cell) (id : TransactionId) (committed : Bool) :
    (c.settled id committed).seq =
      if committed && (c.pendingOf id).isSome then (c.seq + 1) % commitCounts else c.seq := by
  by_cases h : c.accessor = some id <;> simp [settled, pendingOf, h]

/-- An observation at this commit count still holds: the word was not committed
    since, and nobody else has written it. -/
def StillValid (c : Cell) (id : TransactionId) (seq : Nat) : Prop :=
  c.seq = seq ∧ (c.pending = none ∨ c.accessor = some id)

/-- The end of another transaction leaves an observation that holds as it is. -/
theorem StillValid.settled {c : Cell} {id u : TransactionId} {seq : Nat}
    (h : c.StillValid id seq) (hu : u ≠ id) (committed : Bool) :
    (c.settled u committed).StillValid id seq := by
  by_cases hown : c.accessor = some u
  · -- The other one has claimed the word, so it has not written it.
    have hpending : c.pending = none := h.2.resolve_right fun hid => by
      rw [hown] at hid
      exact hu (Option.some.inj hid)
    rw [Cell.settled, if_pos hown, hpending]
    exact ⟨by simpa using h.1, .inl rfl⟩
  · rwa [settled_of_accessor_ne hown]

theorem pendingOf_settled_ne {c : Cell} {id u : TransactionId} (hu : u ≠ id) (committed : Bool) :
    (c.settled id committed).pendingOf u = c.pendingOf u := by
  by_cases h : c.accessor = some id
  · simp [settled, pendingOf, h, Ne.symm hu]
  · rw [settled_of_accessor_ne h]

end Cell

/-! ## Cells of a segment -/

namespace Segment

/-- Word `w` as a cell. -/
def cell (s : Segment) (w : Nat) : Cell where
  accessor := (s.control w).accessor
  value := s.committedBytes w
  pending := if (s.control w).written then some (s.load (s.control w).scratch w) else none
  seq := (s.control w).seq

/-- Everything about a segment but the contents of its words. -/
def layout (s : Segment) : Nat × Nat × Nat × Nat := (s.slot, s.size, s.wordSize, s.words)

/-- The change from `s` to `s'` makes `c` the cell of word `w`, and changes
    nothing else. -/
structure Becomes (s s' : Segment) (w : Nat) (c : Cell) : Prop where
  layout : s'.layout = s.layout
  shaped : s.Shaped → s'.Shaped
  self : s'.cell w = c
  others : ∀ v, v ≠ w → s'.cell v = s.cell v

theorem becomes_refl (s : Segment) (w : Nat) : s.Becomes s w (s.cell w) where
  layout := rfl
  shaped := id
  self := rfl
  others := fun _ _ => rfl

/-- The cell of a word whose control is changed and whose copies are not. -/
theorem cell_eq_of_control {s s' : Segment} {w : Nat} {c : Control} (hc : s'.control w = c)
    (hload : ∀ d, s'.load d w = s.load d w) :
    s'.cell w = { accessor := c.accessor, value := s.load c.valid w,
                  pending := if c.written then some (s.load c.scratch w) else none,
                  seq := c.seq } := by
  simp only [cell, committedBytes, hc, hload]

theorem layout_setControl (s : Segment) (w : Nat) (c : Control) :
    (s.setControl w c).layout = s.layout := by
  unfold layout
  rw [words_setControl]
  rfl

theorem layout_store (s : Segment) (c : Copy) (w : Nat) (bytes : List UInt8) :
    (s.store c w bytes).layout = s.layout := by
  unfold layout
  rw [words_store]
  simp [store]

/-- Storing a control changes the cell of its word alone. -/
theorem becomes_setControl (s : Segment) {w : Nat} {c : Control} (hw : w < s.words)
    (hseq : c.seq < commitCounts) :
    s.Becomes (s.setControl w c) w
      { accessor := c.accessor, value := s.load c.valid w,
        pending := if c.written then some (s.load c.scratch w) else none, seq := c.seq } where
  layout := s.layout_setControl w c
  shaped := fun h => h.setControl w c
  self := cell_eq_of_control (s.control_setControl_of_lt hw hseq) fun _ => load_setControl ..
  others := fun v hv => by
    simp only [cell, committedBytes, control_setControl_ne s c (Ne.symm hv), load_setControl]

theorem stillValid_iff (s : Segment) (id : TransactionId) (w seq : Nat) :
    s.stillValid id w seq = true ↔ (s.cell w).StillValid id seq := by
  cases hwritten : (s.control w).written <;>
    simp [stillValid, Cell.StillValid, cell, Control.ownedBy, hwritten]

/-! ## Reading -/

/-- A refused read changes nothing. -/
theorem readWord_refused {s : Segment} {id : TransactionId} {w : Nat}
    (h : (s.readWord id w).1 = none) : (s.readWord id w).2 = s := by
  unfold readWord at h ⊢
  grind

/-- A granted read returns the latest value, and at most claims the word. -/
theorem readWord_granted {s : Segment} {id : TransactionId} {w : Nat} {g : Grant}
    {bytes : List UInt8} (hw : w < s.words) (h : (s.readWord id w).1 = some (g, bytes)) :
    (s.cell w).Grants id g ∧ bytes = (s.cell w).latest ∧
      s.Becomes (s.readWord id w).2 w ((s.cell w).granted id g) := by
  unfold readWord at h ⊢
  by_cases hwritten : (s.control w).written = true
  · simp only [hwritten, if_true] at h ⊢
    by_cases howned : (s.control w).ownedBy id = true
    · simp only [howned, if_true, Option.some.injEq, Prod.mk.injEq] at h ⊢
      obtain ⟨rfl, rfl⟩ := h
      have haccessor : (s.control w).accessor = some id := by
        simpa [Control.ownedBy] using howned
      refine ⟨haccessor, ?_, s.becomes_refl w⟩
      simp [Cell.latest, cell, hwritten]
    · simp [howned] at h
  · have hnone : (s.cell w).pending = none := by simp [cell, hwritten]
    have hlatest : (s.cell w).latest = s.load (s.control w).valid w := by
      rw [Cell.latest, hnone]; rfl
    simp only [hwritten] at h ⊢
    cases haccessor : (s.control w).accessor with
    | none =>
      simp only [haccessor, Bool.false_eq_true, if_false, Option.some.injEq, Prod.mk.injEq] at h ⊢
      obtain ⟨rfl, rfl⟩ := h
      have hbecomes := s.becomes_setControl (c := (s.control w).claimedBy id) hw
        (s.seq_control_lt w)
      exact ⟨⟨haccessor, hnone⟩, hlatest.symm, hbecomes⟩
    | some owner =>
      simp only [haccessor, Bool.false_eq_true, if_false, Option.some.injEq, Prod.mk.injEq] at h ⊢
      obtain ⟨rfl, rfl⟩ := h
      by_cases howner : owner = id
      · simp only [howner, if_true]
        exact ⟨howner ▸ haccessor, hlatest.symm, s.becomes_refl w⟩
      · -- Somebody else is the accessor and has not written: this is observed.
        simp only [howner, if_false]
        exact ⟨⟨hnone, rfl, owner, howner, haccessor⟩, hlatest.symm, s.becomes_refl w⟩

/-! ## Writing -/

/-- A refused write changes nothing. -/
theorem writeWord_refused {s : Segment} {id : TransactionId} {w : Nat} {bytes : List UInt8}
    (h : (s.writeWord id w bytes).1 = none) : (s.writeWord id w bytes).2 = s := by
  unfold writeWord at h ⊢
  grind

/-- The first pending write of a transaction in a word. -/
theorem becomes_beginWrite {s : Segment} (hs : s.Shaped) (id : TransactionId) {w : Nat}
    (hw : w < s.words) {bytes : List UInt8} (hlen : bytes.length = s.wordSize) :
    s.Becomes (s.beginWrite id w bytes) w ((s.cell w).wrote id bytes) := by
  have hset := s.becomes_setControl (c := (s.control w).writtenBy id) hw (s.seq_control_lt w)
  have hw' : w < (s.setControl w ((s.control w).writtenBy id)).words := by
    rw [words_setControl]; exact hw
  have hcontrol : (s.beginWrite id w bytes).control w = (s.control w).writtenBy id := by
    rw [beginWrite, control_store]
    exact control_setControl_of_lt s hw (s.seq_control_lt w)
  -- The store goes to the scratch copy, so the committed value stays.
  have hvalid : (s.beginWrite id w bytes).load (s.control w).valid w
      = s.load (s.control w).valid w := by
    rw [beginWrite, load_store_of_copy_ne _ (c := (s.control w).scratch) (Copy.other_ne _),
      load_setControl]
  have hscratch : (s.beginWrite id w bytes).load (s.control w).scratch w = bytes :=
    load_store_self (hset.shaped hs) _ hw' hlen
  constructor
  · rw [beginWrite, layout_store, layout_setControl]
  · exact fun h => (h.setControl w _).store _ w bytes
  · have hother : (s.beginWrite id w bytes).load (s.control w).valid.other w = bytes := hscratch
    simp only [cell, committedBytes, hcontrol, Control.writtenBy, Control.scratch, Cell.wrote,
      hvalid, hother, if_true]
  · intro v hv
    have hcv : (s.beginWrite id w bytes).control v = s.control v := by
      rw [beginWrite, control_store, control_setControl_ne s _ (Ne.symm hv)]
    have hload : ∀ d, (s.beginWrite id w bytes).load d v = s.load d v := fun d => by
      rw [beginWrite, load_store_of_word_ne _ _ _ (Ne.symm hv), load_setControl]
    simp only [cell, committedBytes, hcv, hload]

/-- A further write of a transaction in a word that it has written. -/
theorem becomes_overwrite {s : Segment} (hs : s.Shaped) {id : TransactionId} {w : Nat}
    (hw : w < s.words) (hwritten : (s.control w).written = true)
    (howner : (s.control w).accessor = some id) {bytes : List UInt8}
    (hlen : bytes.length = s.wordSize) :
    s.Becomes (s.store (s.control w).scratch w bytes) w ((s.cell w).wrote id bytes) := by
  constructor
  · exact s.layout_store ..
  · exact fun h => h.store _ w bytes
  · simp only [cell, committedBytes, control_store, Cell.wrote, hwritten, howner, if_true,
      load_store_self hs _ hw hlen,
      load_store_of_copy_ne s (c := (s.control w).scratch) (d := (s.control w).valid)
        (Copy.other_ne _)]
  · intro v hv
    simp only [cell, committedBytes, control_store, load_store_of_word_ne s _ _ (Ne.symm hv)]

/-- A granted write replaces the pending write of the transaction, which becomes
    or stays the accessor. -/
theorem writeWord_granted {s : Segment} (hs : s.Shaped) {id : TransactionId} {w : Nat} {g : Grant}
    {bytes : List UInt8} (hw : w < s.words) (hlen : bytes.length = s.wordSize)
    (h : (s.writeWord id w bytes).1 = some g) :
    (s.cell w).Grants id g ∧ (∀ seq, g ≠ .observed seq) ∧
      s.Becomes (s.writeWord id w bytes).2 w ((s.cell w).wrote id bytes) := by
  unfold writeWord at h ⊢
  by_cases hwritten : (s.control w).written = true
  · simp only [hwritten, if_true] at h ⊢
    by_cases howned : (s.control w).ownedBy id = true
    · simp only [howned, if_true, Option.some.injEq] at h ⊢
      subst h
      have haccessor : (s.control w).accessor = some id := by
        simpa [Control.ownedBy] using howned
      exact ⟨haccessor, nofun, becomes_overwrite hs hw hwritten haccessor hlen⟩
    · simp [howned] at h
  · have hnone : (s.cell w).pending = none := by simp [cell, hwritten]
    simp only [hwritten] at h ⊢
    cases haccessor : (s.control w).accessor with
    | none =>
      simp only [haccessor, Bool.false_eq_true, if_false, Option.some.injEq] at h ⊢
      subst h
      exact ⟨⟨haccessor, hnone⟩, nofun, becomes_beginWrite hs id hw hlen⟩
    | some owner =>
      by_cases howner : owner = id
      · simp only [haccessor, howner, Bool.false_eq_true, if_false, if_true,
          Option.some.injEq] at h ⊢
        subst h
        exact ⟨howner ▸ haccessor, nofun, becomes_beginWrite hs id hw hlen⟩
      · simp [haccessor, howner] at h

/-! ## Settling -/

/-- Commits or releases word `w` for the transaction. -/
def settleWord (s : Segment) (id : TransactionId) (committed : Bool) (w : Nat) : Segment :=
  if committed then s.commitWord id w else s.releaseWord id w

/-- Committing or releasing a word settles its cell. -/
theorem settleWord_becomes {s : Segment} (id : TransactionId) (committed : Bool) {w : Nat}
    (hw : w < s.words) :
    s.Becomes (s.settleWord id committed w) w ((s.cell w).settled id committed) := by
  by_cases haccessor : (s.cell w).accessor = some id
  · have howned : (s.control w).ownedBy id = true := by
      simpa [Control.ownedBy] using (show (s.control w).accessor = some id from haccessor)
    rw [Cell.settled, if_pos haccessor]
    by_cases hcommit : committed = true ∧ (s.control w).written = true
    · -- The copies change roles, so the scratch copy becomes the valid one.
      obtain ⟨rfl, hwritten⟩ := hcommit
      have hcommitted := s.becomes_setControl (c := (s.control w).committed) hw
        (Nat.mod_lt _ (by decide))
      have hpending : (s.cell w).pending = some (s.load (s.control w).scratch w) := by
        simp [cell, hwritten]
      simp only [settleWord, commitWord, howned, hwritten, if_true, Cell.latest, hpending,
        Option.getD_some, Option.isSome_some, Bool.and_self]
      exact hcommitted
    · -- A rollback, or a word that was only read: the valid copy stays.
      have hreleased := s.becomes_setControl (c := (s.control w).released) hw (s.seq_control_lt w)
      have hunwritten : committed = true → (s.control w).written = false := by simpa using hcommit
      have hword : s.settleWord id committed w = s.setControl w (s.control w).released := by
        cases committed with
        | true => simp [settleWord, commitWord, howned, hunwritten rfl]
        | false => simp [settleWord, releaseWord, howned]
      have hvalue : (if committed then (s.cell w).latest else (s.cell w).value)
          = s.load (s.control w).valid w := by
        cases committed with
        | true => simp [Cell.latest, cell, committedBytes, hunwritten rfl]
        | false => rfl
      have hseq : (committed && (s.cell w).pending.isSome) = false := by
        cases committed with
        | true => simp [cell, hunwritten rfl]
        | false => rfl
      rw [hword, hvalue, hseq]
      exact hreleased
  · have howned : ¬ (s.control w).ownedBy id = true := by
      simpa [Control.ownedBy] using (show ¬ (s.control w).accessor = some id from haccessor)
    rw [Cell.settled_of_accessor_ne haccessor]
    cases committed <;> simpa [settleWord, commitWord, releaseWord, howned] using s.becomes_refl w

/-- A word that does not exist has no accessor. -/
theorem settleWord_of_words_le {s : Segment} (id : TransactionId) (committed : Bool) {w : Nat}
    (hw : s.words ≤ w) : s.settleWord id committed w = s := by
  have hcontrol : s.control w = Control.untouched := by
    unfold control
    rw [Array.getElem?_eq_none hw]
    rfl
  have howned : (s.control w).ownedBy id = false := by rw [hcontrol]; rfl
  cases committed <;> simp [settleWord, commitWord, releaseWord, howned]

end Segment

end TransactionalMemory
