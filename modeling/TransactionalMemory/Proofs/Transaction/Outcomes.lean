import TransactionalMemory.Proofs.Region.Allocation
import TransactionalMemory.Proofs.Region.Words
import TransactionalMemory.Proofs.Session.History

/-! # Outcomes of operations

    What each operation of a transaction can come to, case by case, with the
    condition under which each case occurs. Whoever wants to know what an
    operation does asks these theorems, not the definition of the operation. -/

namespace TransactionalMemory.Transaction

variable {t : Transaction} {r : Region}

/-! ## Ranges -/

/-- What is known of a range that was resolved. -/
structure Resolved (t : Transaction) (r : Region) (a : Address) (length slot : Nat)
    (first : WordRef) : Prop where
  slot_eq : a.slot? = some slot
  reached : t.reach r a slot = .ok first.segment
  word_eq : first.word = a.offset / r.wordSize
  inside : inBounds r.wordSize ((r.segment? first.segment).elim 0 Segment.size) a.offset length
    = true

theorem resolve_eq_ok_iff {a : Address} {length : Nat} {first : WordRef} :
    t.resolve r a length = .ok first ↔ ∃ slot, t.Resolved r a length slot first := by
  unfold resolve
  cases hslot : a.slot? with
  | none =>
    constructor
    · intro h; cases h
    · rintro ⟨slot, h⟩
      rw [h.slot_eq] at hslot
      cases hslot
  | some slot =>
    simp only
    constructor
    · intro h
      cases hreach : t.reach r a slot with
      | error failure => rw [hreach] at h; cases h
      | ok n =>
        rw [hreach] at h
        simp only at h
        split at h
        next hin =>
          cases h
          exact ⟨slot, hslot, hreach, rfl, hin⟩
        next => cases h
    · rintro ⟨slot', h⟩
      rw [h.slot_eq] at hslot
      cases hslot
      obtain ⟨n, w⟩ := first
      have hin := h.inside
      have hw := h.word_eq
      simp only at hin hw
      rw [h.reached]
      simp only [hin, if_true, hw]

namespace Resolved

variable {a : Address} {length slot : Nat} {first : WordRef}

/-- The slot holds the segment. -/
theorem holds (h : t.Resolved r a length slot first) :
    (r.table.lookup slot).segment? = some first.segment := by
  have hreach := h.reached
  unfold reach at hreach
  cases hlookup : r.table.lookup slot with
  | vacant => rw [hlookup] at hreach; cases hreach
  | live n =>
    rw [hlookup] at hreach
    cases hreach; rfl
  | freeing n =>
    -- Read-only transactions still find the segment here, and in a retired slot.
    rw [hlookup] at hreach
    simp only at hreach
    split at hreach
    · cases hreach; rfl
    · split at hreach <;> cases hreach
  | retired n =>
    rw [hlookup] at hreach
    simp only at hreach
    split at hreach
    · cases hreach; rfl
    · cases hreach

/-- The range begins at the word that the address leads to. -/
theorem wordAt?_eq (h : t.Resolved r a length slot first) : r.wordAt? a = some first := by
  unfold Region.wordAt?
  rw [h.slot_eq]
  simp only [h.holds, ← h.word_eq]

/-- The range is a number of whole words of the segment. -/
theorem range_le (h : t.Resolved r a length slot first) (hr : r.Shaped) {s : Segment}
    (hs : r.segment? first.segment = some s) :
    first.word + length / r.wordSize ≤ s.words ∧ length / r.wordSize * r.wordSize = length := by
  obtain ⟨hshaped, hsize⟩ := hr _ _ hs
  have hin := h.inside
  have hpos := hshaped.pos
  rw [hsize] at hpos
  simp only [inBounds, hs, Option.elim_some, Bool.and_eq_true, beq_iff_eq,
    decide_eq_true_eq] at hin
  obtain ⟨⟨⟨_, hlength⟩, hoffset⟩, hle⟩ := hin
  have hwhole : length / r.wordSize * r.wordSize = length :=
    Nat.div_mul_cancel (Nat.dvd_of_mod_eq_zero hlength)
  have hstart : a.offset / r.wordSize * r.wordSize = a.offset :=
    Nat.div_mul_cancel (Nat.dvd_of_mod_eq_zero hoffset)
  -- Offset and length are whole words, so the bound on bytes is one on words.
  refine ⟨?_, hwhole⟩
  rw [h.word_eq, Segment.words, hshaped.controls, hsize, Nat.le_div_iff_mul_le hpos,
    Nat.add_mul, hwhole, hstart]
  exact hle

end Resolved

/-- An address is in conflict only if another transaction is freeing its segment. -/
theorem resolve_conflict {a b : Address} {length : Nat}
    (h : t.resolve r a length = .error (.conflict b)) :
    t.isReadOnly = false ∧ b = a ∧ ∃ slot n, a.slot? = some slot ∧
      r.table.lookup slot = .freeing n ∧ slot ∉ t.freed := by
  unfold resolve at h
  cases hslot : a.slot? with
  | none =>
    rw [hslot] at h
    cases h
  | some slot =>
    rw [hslot] at h
    cases hreach : t.reach r a slot with
    | ok n =>
      simp only [hreach] at h
      split at h <;> cases h
    | error cause =>
      simp only [hreach] at h
      cases h
      unfold reach at hreach
      cases hlookup : r.table.lookup slot with
      | live n => simp [hlookup] at hreach
      | vacant => simp [hlookup] at hreach
      | retired n =>
        simp only [hlookup] at hreach
        split at hreach <;> cases hreach
      | freeing n =>
        simp only [hlookup] at hreach
        split at hreach
        · cases hreach
        next hrw =>
          split at hreach
          · cases hreach
          next hunfreed =>
            cases hreach
            exact ⟨Bool.eq_false_iff.2 hrw, rfl, slot, n, rfl, hlookup, hunfreed⟩

/-! ## Cases -/

/-- What a read can come to. -/
inductive ReadCase (t : Transaction) (r : Region) (a : Address) (length : Nat) : Prop where
  /-- A doomed transaction is refused. -/
  | refused (doomed : t.doomed = true) (outcome : t.read r a length = t.refuse r)
  /-- The range leads nowhere. -/
  | failed {failure : Failure} (undoomed : t.doomed = false)
      (why : t.resolve r a length = .error failure ∨
        ∃ first, t.resolve r a length = .ok first ∧ r.segment? first.segment = none ∧
          failure = .invalidAddress a)
      (outcome : t.read r a length = t.fail r failure)
  /-- A read-only transaction reads what is committed. -/
  | shared {slot : Nat} {first : WordRef} {s : Segment} (undoomed : t.doomed = false)
      (readOnly : t.isReadOnly = true) (resolved : t.Resolved r a length slot first)
      (found : r.segment? first.segment = some s)
      (outcome : t.read r a length =
        ⟨.ok (committedWords s first.word (length / r.wordSize)), t, r⟩)
  /-- A read-write transaction passes over the words. -/
  | passed {slot : Nat} {first : WordRef} {s : Segment} (undoomed : t.doomed = false)
      (readWrite : t.isReadOnly = false) (resolved : t.Resolved r a length slot first)
      (found : r.segment? first.segment = some s)
      (outcome : t.read r a length =
        ofPass r a first (t.readWords s first.segment first.word (length / r.wordSize) #[]))

theorem read_cases (t : Transaction) (r : Region) (a : Address) (length : Nat) :
    t.ReadCase r a length := by
  by_cases hd : t.doomed = true
  · exact .refused hd (by simp [read, hd])
  have hundoomed := Bool.eq_false_iff.2 hd
  cases hresolve : t.resolve r a length with
  | error failure => exact .failed hundoomed (.inl hresolve) (by simp [read, hd, hresolve])
  | ok first =>
    obtain ⟨slot, hresolved⟩ := resolve_eq_ok_iff.1 hresolve
    cases hs : r.segment? first.segment with
    | none =>
      exact .failed hundoomed (.inr ⟨first, hresolve, hs, rfl⟩) (by simp [read, hd, hresolve, hs])
    | some s =>
      by_cases hro : t.isReadOnly = true
      · exact .shared hundoomed hro hresolved hs (by simp [read, hd, hresolve, hs, hro])
      · exact .passed hundoomed (Bool.eq_false_iff.2 hro) hresolved hs
          (by simp [read, hd, hresolve, hs, hro])

/-- What a write can come to. -/
inductive WriteCase (t : Transaction) (r : Region) (a : Address) (bytes : List UInt8) : Prop where
  | refused (doomed : t.doomed = true) (outcome : t.write r a bytes = t.refuse r)
  /-- The transaction is read-only, or the range leads nowhere. -/
  | failed {failure : Failure} (undoomed : t.doomed = false)
      (why : (t.isReadOnly = true ∧ failure = .readOnly) ∨
        t.resolve r a bytes.length = .error failure ∨
        ∃ first, t.resolve r a bytes.length = .ok first ∧ r.segment? first.segment = none ∧
          failure = .invalidAddress a)
      (outcome : t.write r a bytes = t.fail r failure)
  /-- A read-write transaction passes over the words. -/
  | passed {slot : Nat} {first : WordRef} {s : Segment} (undoomed : t.doomed = false)
      (readWrite : t.isReadOnly = false) (resolved : t.Resolved r a bytes.length slot first)
      (found : r.segment? first.segment = some s)
      (outcome : t.write r a bytes = ofPass r a first
        (t.writeWords s first.segment r.wordSize first.word (bytes.length / r.wordSize) bytes))

theorem write_cases (t : Transaction) (r : Region) (a : Address) (bytes : List UInt8) :
    t.WriteCase r a bytes := by
  by_cases hd : t.doomed = true
  · exact .refused hd (by simp [write, hd])
  have hundoomed := Bool.eq_false_iff.2 hd
  by_cases hro : t.isReadOnly = true
  · exact .failed hundoomed (.inl ⟨hro, rfl⟩) (by simp [write, hd, hro])
  cases hresolve : t.resolve r a bytes.length with
  | error failure =>
    exact .failed hundoomed (.inr (.inl hresolve)) (by simp [write, hd, hro, hresolve])
  | ok first =>
    obtain ⟨slot, hresolved⟩ := resolve_eq_ok_iff.1 hresolve
    cases hs : r.segment? first.segment with
    | none =>
      exact .failed hundoomed (.inr (.inr ⟨first, hresolve, hs, rfl⟩))
        (by simp [write, hd, hro, hresolve, hs])
    | some s =>
      exact .passed hundoomed (Bool.eq_false_iff.2 hro) hresolved hs
        (by simp [write, hd, hro, hresolve, hs])

/-- What an allocation can come to, with `memory` for its buffers or without. -/
inductive AllocCase (t : Transaction) (r : Region) (size : Nat) (memory : Bool) : Prop where
  | refused (doomed : t.doomed = true) (outcome : t.alloc r size memory = t.refuse r)
  /-- The transaction is read-only, or the size is no positive number of words. -/
  | failed {failure : Failure} (undoomed : t.doomed = false)
      (why : (t.isReadOnly = true ∧ failure = .readOnly) ∨
        (t.isReadOnly = false ∧ (size = 0 ∨ size % r.wordSize ≠ 0) ∧
          failure = .invalidLayout size r.wordSize))
      (outcome : t.alloc r size memory = t.fail r failure)
  /-- A read-write transaction is given nothing, and goes on as it was. -/
  | scarce {r' : Region} (undoomed : t.doomed = false) (readWrite : t.isReadOnly = false)
      (attempt : r.tryAllocate size memory = (none, r'))
      (outcome : t.alloc r size memory = ⟨.error .outOfMemory, t, r'⟩)
  /-- A read-write transaction is given a slot. -/
  | granted {slot : Nat} {r' : Region} (undoomed : t.doomed = false)
      (readWrite : t.isReadOnly = false) (whole : r.wordSize ∣ size) (enough : memory = true)
      (found : r.allocate? size = some (slot, r'))
      (outcome : t.alloc r size memory =
        ⟨.ok (.ofParts slot 0), { t with allocated := slot :: t.allocated }, r'⟩)

theorem alloc_cases (t : Transaction) (r : Region) (size : Nat) (memory : Bool) :
    t.AllocCase r size memory := by
  by_cases hd : t.doomed = true
  · have houtcome : t.alloc r size memory = t.refuse r := by simp [alloc, hd]
    exact .refused hd houtcome
  have hundoomed := Bool.eq_false_iff.2 hd
  by_cases hro : t.isReadOnly = true
  · have houtcome : t.alloc r size memory = t.fail r .readOnly := by simp [alloc, hd, hro]
    exact .failed hundoomed (.inl ⟨hro, rfl⟩) houtcome
  by_cases hsize : size = 0 ∨ size % r.wordSize ≠ 0
  · have houtcome : t.alloc r size memory = t.fail r (.invalidLayout size r.wordSize) := by
      simp only [alloc, hd, hro, hsize, if_true, if_false, Bool.false_eq_true]
    exact .failed hundoomed (.inr ⟨Bool.eq_false_iff.2 hro, hsize, rfl⟩) houtcome
  rcases hattempt : r.tryAllocate size memory with ⟨_ | slot, r'⟩
  · have houtcome : t.alloc r size memory = ⟨.error .outOfMemory, t, r'⟩ := by
      simp only [alloc, hd, hro, hsize, hattempt, if_false, Bool.false_eq_true]
    exact .scarce hundoomed (Bool.eq_false_iff.2 hro) hattempt houtcome
  · have hwhole : r.wordSize ∣ size :=
      Nat.dvd_of_mod_eq_zero (Decidable.byContradiction fun hne => hsize (.inr hne))
    obtain ⟨henough, hfound⟩ := Region.allocate?_of_attempt hattempt
    exact .granted hundoomed (Bool.eq_false_iff.2 hro) hwhole henough hfound
      (by simp only [alloc, hd, hro, hsize, hattempt, if_false, Bool.false_eq_true])

/-- The permanent segment is never freed. -/
theorem ne_permanentSlot_of_freeable {a : Address} {slot : Nat}
    (h : freeable? a = some slot) : slot ≠ Region.permanentSlot := by
  unfold freeable? at h
  split at h
  · cases h
  · split at h
    next hcond => cases h; exact hcond.1
    next => cases h

/-- The first byte of a segment that may be freed is at an address of its slot. -/
theorem slot?_of_freeable {a : Address} {slot : Nat} (h : freeable? a = some slot) :
    a.slot? = some slot := by
  unfold freeable? at h
  split at h
  · cases h
  next hslot =>
    split at h
    · cases h; exact hslot
    · cases h

/-- What a free can come to. -/
inductive FreeCase (t : Transaction) (r : Region) (a : Address) : Prop where
  | refused (doomed : t.doomed = true) (outcome : t.free r a = t.refuse r)
  /-- The transaction is read-only, or the address is none that it may free. -/
  | failed {failure : Failure} (undoomed : t.doomed = false)
      (why : (t.isReadOnly = true ∧ failure = .readOnly) ∨
        (freeable? a = none ∧ failure = .invalidAddress a) ∨
        ∃ slot, freeable? a = some slot ∧
          ((∃ n, r.table.lookup slot = .freeing n ∧
              failure = if slot ∈ t.freed then .invalidAddress a else .conflict a) ∨
            (r.table.lookup slot).isOccupied = false ∧ failure = .invalidAddress a))
      (outcome : t.free r a = t.fail r failure)
  /-- A read-write transaction marks the slot. -/
  | marked {slot n : Nat} (undoomed : t.doomed = false) (readWrite : t.isReadOnly = false)
      (freeable : freeable? a = some slot) (live : r.table.lookup slot = .live n)
      (outcome : t.free r a =
        ⟨.ok (), { t with freed := slot :: t.freed }, { r with table := r.table.mark slot }⟩)

theorem free_cases (t : Transaction) (r : Region) (a : Address) : t.FreeCase r a := by
  by_cases hd : t.doomed = true
  · exact .refused hd (by simp [free, hd])
  have hundoomed := Bool.eq_false_iff.2 hd
  by_cases hro : t.isReadOnly = true
  · exact .failed hundoomed (.inl ⟨hro, rfl⟩) (by simp [free, hd, hro])
  cases hfreeable : freeable? a with
  | none =>
    exact .failed hundoomed (.inr (.inl ⟨hfreeable, rfl⟩)) (by simp [free, hd, hro, hfreeable])
  | some slot =>
    cases hlookup : r.table.lookup slot with
    | live n =>
      exact .marked hundoomed (Bool.eq_false_iff.2 hro) hfreeable hlookup
        (by simp [free, hd, hro, hfreeable, hlookup])
    | freeing n =>
      by_cases hown : slot ∈ t.freed
      · exact .failed hundoomed (.inr (.inr ⟨slot, hfreeable, .inl ⟨n, hlookup, rfl⟩⟩))
          (by simp [free, hd, hro, hfreeable, hlookup, hown])
      · exact .failed hundoomed (.inr (.inr ⟨slot, hfreeable, .inl ⟨n, hlookup, rfl⟩⟩))
          (by simp [free, hd, hro, hfreeable, hlookup, hown])
    | retired n =>
      exact .failed hundoomed (.inr (.inr ⟨slot, hfreeable, .inr ⟨by rw [hlookup]; rfl, rfl⟩⟩))
        (by simp [free, hd, hro, hfreeable, hlookup])
    | vacant =>
      exact .failed hundoomed (.inr (.inr ⟨slot, hfreeable, .inr ⟨by rw [hlookup]; rfl, rfl⟩⟩))
        (by simp [free, hd, hro, hfreeable, hlookup])

/-! ## Read-only transactions -/

/-- A read-only transaction reaches whatever a slot holds. -/
theorem reach_of_readOnly (hro : t.isReadOnly = true) (a : Address) {slot n : Nat}
    (hn : (r.table.lookup slot).segment? = some n) : t.reach r a slot = .ok n := by
  unfold reach
  cases hlookup : r.table.lookup slot <;> simp_all [Slot.segment?]

/-- A read-only transaction reads whatever range lies inside a segment that a slot holds. -/
theorem read_of_readOnly (hro : t.isReadOnly = true) (hundoomed : t.doomed = false) {a : Address}
    {slot n length : Nat} {s : Segment} (ha : a.slot? = some slot)
    (hn : (r.table.lookup slot).segment? = some n) (hs : r.segment? n = some s)
    (hin : inBounds r.wordSize s.size a.offset length = true) :
    (t.read r a length).value =
      .ok (committedWords s (a.offset / r.wordSize) (length / r.wordSize)) := by
  have hresolved : t.resolve r a length = .ok ⟨n, a.offset / r.wordSize⟩ :=
    resolve_eq_ok_iff.2 ⟨slot, ha, reach_of_readOnly hro a hn, rfl, by rw [hs]; exact hin⟩
  simp only [read, hundoomed, hresolved, hs, hro, Bool.false_eq_true, if_false, if_true]

/-- What a read-only transaction has read is what is committed in the segment that
    the address leads to. -/
theorem value_of_readOnly (hro : t.isReadOnly = true) {a : Address} {length : Nat}
    {bytes : List UInt8} (h : (t.read r a length).value = .ok bytes) :
    ∃ slot first s, t.Resolved r a length slot first ∧ r.segment? first.segment = some s ∧
      bytes = committedWords s first.word (length / r.wordSize) := by
  cases t.read_cases r a length with
  | refused doomed heq => rw [heq] at h; cases h
  | failed undoomed why heq => rw [heq] at h; cases h
  | shared undoomed readOnly resolved found heq =>
    rw [heq] at h
    cases h
    exact ⟨_, _, _, resolved, found, rfl⟩
  | passed undoomed readWrite resolved found heq => rw [hro] at readWrite; cases readWrite

/-! ## What only allocations and frees change -/

theorem slots_readWords (t : Transaction) (s : Segment) (n first count : Nat)
    (soFar : Array UInt8) :
    (t.readWords s n first count soFar).transaction.allocated = t.allocated ∧
      (t.readWords s n first count soFar).transaction.freed = t.freed := by
  apply keeps_readWords (P := fun u => u.allocated = t.allocated ∧ u.freed = t.freed)
  · simp
  · simp

theorem slots_writeWords (t : Transaction) (s : Segment) (n wordSize first count : Nat)
    (bytes : List UInt8) :
    (t.writeWords s n wordSize first count bytes).transaction.allocated = t.allocated ∧
      (t.writeWords s n wordSize first count bytes).transaction.freed = t.freed := by
  apply keeps_writeWords (P := fun u => u.allocated = t.allocated ∧ u.freed = t.freed)
  · simp
  · simp

/-- The transaction has the allocations that it had, and the region as many segments. -/
structure Unallocated {α : Type} (t : Transaction) (r : Region) (o : Outcome α) : Prop where
  allocated : o.transaction.allocated = t.allocated
  size : o.region.segments.size = r.segments.size

/-- Nor has the transaction freed anything. -/
structure Unslotted {α : Type} (t : Transaction) (r : Region) (o : Outcome α) : Prop
    extends t.Unallocated r o where
  freed : o.transaction.freed = t.freed

theorem unslotted_refuse {α : Type} (t : Transaction) (r : Region) :
    t.Unslotted r (t.refuse r : Outcome α) := ⟨⟨rfl, rfl⟩, rfl⟩

theorem unslotted_fail {α : Type} (t : Transaction) (r : Region) (failure : Failure) :
    t.Unslotted r (t.fail r failure : Outcome α) := ⟨⟨rfl, rfl⟩, rfl⟩

theorem unslotted_ofPass {α : Type} (a : Address) (first : WordRef) {pass : Pass α}
    (h : pass.transaction.allocated = t.allocated ∧ pass.transaction.freed = t.freed) :
    t.Unslotted r (ofPass r a first pass) := by
  have hsize := r.size_segments_updateSegment first.segment fun _ => pass.segment
  unfold ofPass
  dsimp only
  split
  · exact ⟨⟨h.1, hsize⟩, h.2⟩
  · exact ⟨⟨h.1, hsize⟩, h.2⟩

/-- A read allocates and frees nothing. -/
theorem unslotted_read (t : Transaction) (r : Region) (a : Address) (length : Nat) :
    t.Unslotted r (t.read r a length) := by
  cases t.read_cases r a length with
  | refused doomed heq => rw [heq]; exact unslotted_refuse ..
  | failed undoomed why heq => rw [heq]; exact unslotted_fail ..
  | shared undoomed readOnly resolved found heq => rw [heq]; exact ⟨⟨rfl, rfl⟩, rfl⟩
  | passed undoomed readWrite resolved found heq =>
    rw [heq]
    exact unslotted_ofPass _ _ (slots_readWords ..)

/-- A write allocates and frees nothing. -/
theorem unslotted_write (t : Transaction) (r : Region) (a : Address) (bytes : List UInt8) :
    t.Unslotted r (t.write r a bytes) := by
  cases t.write_cases r a bytes with
  | refused doomed heq => rw [heq]; exact unslotted_refuse ..
  | failed undoomed why heq => rw [heq]; exact unslotted_fail ..
  | passed undoomed readWrite resolved found heq =>
    rw [heq]
    exact unslotted_ofPass _ _ (slots_writeWords ..)

/-- A free allocates nothing. -/
theorem unallocated_free (t : Transaction) (r : Region) (a : Address) :
    t.Unallocated r (t.free r a) := by
  cases t.free_cases r a with
  | refused doomed heq => rw [heq]; exact ⟨rfl, rfl⟩
  | failed undoomed why heq => rw [heq]; exact ⟨rfl, rfl⟩
  | marked undoomed readWrite freeable live heq => rw [heq]; exact ⟨rfl, rfl⟩

end TransactionalMemory.Transaction
