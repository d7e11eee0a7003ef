import TransactionalMemory.Proofs.Region.Allocation
import TransactionalMemory.Proofs.Transaction.Conclusion

/-! # Slot numbers to come

    A table hands out the numbers that were taken back, the last one first, and
    then those that were never handed out. An attempt to allocate for which there
    is no memory may leave its number among those taken back, where it was a new
    one before. The table is another one then, but the numbers that it hands out
    from now on are the same, in the same order.

    Regions that differ in no more than this are alike. Whatever is done to two
    of them has the same result and leaves them alike: most of it does not look
    at the numbers to come at all. -/

namespace TransactionalMemory

namespace SlotTable

variable {t t' u u' : SlotTable} {i j : Nat} {rest : List Nat}

/-- The numbers that a table will hand out, in this order, as long as none is taken back. -/
def upcoming (t : SlotTable) : List Nat :=
  t.recycled ++ List.range' t.next (maxSegments - t.next)

theorem upcoming_eq_nil_iff (t : SlotTable) :
    t.upcoming = [] ↔ t.recycled = [] ∧ maxSegments ≤ t.next := by
  rw [upcoming, List.append_eq_nil_iff, List.range'_eq_nil_iff, Nat.sub_eq_zero_iff_le]

/-- A number that is taken back is the next one to be handed out. -/
theorem upcoming_recycle (t : SlotTable) (i : Nat) : (t.recycle i).upcoming = i :: t.upcoming := rfl

/-- Numbers run out when none is to come. -/
theorem reserve?_eq_none_iff (t : SlotTable) : t.reserve? = none ↔ t.upcoming = [] := by
  rw [upcoming_eq_nil_iff]
  unfold reserve?
  cases t.recycled with
  | nil =>
    by_cases hlt : t.next < maxSegments
    · simp [hlt]
    · simp [hlt, Nat.le_of_not_lt hlt]
  | cons first rest => simp

/-- The number that is handed out is the first one that was to come. -/
theorem upcoming_of_reserve? (h : t.reserve? = some (i, u)) :
    t.upcoming = i :: u.upcoming ∧ u.slots = t.slots ∧ u.occupied = t.occupied := by
  unfold reserve? at h
  cases hrecycled : t.recycled with
  | cons first rest =>
    rw [hrecycled] at h
    cases h
    rw [upcoming, hrecycled]
    exact ⟨rfl, rfl, rfl⟩
  | nil =>
    rw [hrecycled] at h
    by_cases hlt : t.next < maxSegments
    · simp only [hlt, if_true, Option.some.injEq, Prod.mk.injEq] at h
      obtain ⟨rfl, rfl⟩ := h
      have hleft : maxSegments - t.next = (maxSegments - (t.next + 1)) + 1 := by omega
      rw [upcoming, upcoming, hrecycled, hleft, List.range'_succ]
      exact ⟨rfl, rfl, rfl⟩
    · simp [hlt] at h

/-! ## Alike tables -/

/-- The tables hold the same, and will hand out the same numbers. -/
structure Alike (t t' : SlotTable) : Prop where
  slots : t'.slots = t.slots
  occupied : t'.occupied = t.occupied
  upcoming : t'.upcoming = t.upcoming

namespace Alike

theorem refl (t : SlotTable) : t.Alike t := ⟨rfl, rfl, rfl⟩

theorem symm (h : t.Alike t') : t'.Alike t := ⟨h.slots.symm, h.occupied.symm, h.upcoming.symm⟩

theorem lookup_eq (h : t.Alike t') (i : Nat) : t'.lookup i = t.lookup i := by
  rw [lookup, lookup, h.slots]

theorem set (h : t.Alike t') (i : Nat) (slot : Slot) : (t.set i slot).Alike (t'.set i slot) := by
  have hslots := h.slots
  unfold SlotTable.set
  by_cases hbeyond : slot = .vacant ∧ t.slots.size ≤ i
  · rw [if_pos hbeyond, if_pos (hslots ▸ hbeyond)]
    exact h
  · rw [if_neg hbeyond, if_neg (hslots ▸ hbeyond)]
    exact ⟨by rw [hslots], h.occupied, h.upcoming⟩

theorem withOccupied (h : t.Alike t') (count : UInt64) :
    ({ t with occupied := count } : SlotTable).Alike { t' with occupied := count } :=
  ⟨h.slots, rfl, h.upcoming⟩

theorem mark (h : t.Alike t') (i : Nat) : (t.mark i).Alike (t'.mark i) := by
  unfold SlotTable.mark
  rw [h.lookup_eq]
  exact h.set i _

theorem relink (h : t.Alike t') (i : Nat) : (t.relink i).Alike (t'.relink i) := by
  unfold SlotTable.relink
  rw [h.lookup_eq]
  exact h.set i _

theorem publish (h : t.Alike t') (i n : Nat) : (t.publish i n).Alike (t'.publish i n) := by
  have hset := h.set i (.live n)
  unfold SlotTable.publish
  dsimp only
  rw [hset.occupied]
  exact hset.withOccupied _

theorem markRetired (h : t.Alike t') (i : Nat) :
    (t'.markRetired i).1 = (t.markRetired i).1 ∧
      (t.markRetired i).2.Alike (t'.markRetired i).2 := by
  have hset := h.set i (t.lookup i).markedRetired
  unfold SlotTable.markRetired
  dsimp only
  rw [h.lookup_eq, hset.occupied]
  exact ⟨rfl, hset.withOccupied _⟩

theorem unlink (h : t.Alike t') (i : Nat) :
    (t'.unlink i).1 = (t.unlink i).1 ∧ (t.unlink i).2.Alike (t'.unlink i).2 := by
  have hset := h.set i .vacant
  unfold SlotTable.unlink
  dsimp only
  rw [h.lookup_eq, hset.occupied]
  exact ⟨rfl, hset.withOccupied _⟩

theorem recycle (h : t.Alike t') (i : Nat) : (t.recycle i).Alike (t'.recycle i) := by
  refine ⟨h.slots, h.occupied, ?_⟩
  rw [upcoming_recycle, upcoming_recycle, h.upcoming]

/-- If one of them has no number left, neither has the other. -/
theorem reserve?_none (h : t.Alike t') (hnone : t.reserve? = none) : t'.reserve? = none := by
  rw [reserve?_eq_none_iff] at hnone ⊢
  exact h.upcoming.trans hnone

/-- They hand out the same number, and stay alike. -/
theorem reserve? (h : t.Alike t') (hreserve : t.reserve? = some (i, u))
    (hreserve' : t'.reserve? = some (j, u')) : j = i ∧ u.Alike u' := by
  obtain ⟨hupcoming, hslots, hoccupied⟩ := upcoming_of_reserve? hreserve
  obtain ⟨hupcoming', hslots', hoccupied'⟩ := upcoming_of_reserve? hreserve'
  have hsame := h.upcoming
  rw [hupcoming, hupcoming'] at hsame
  obtain ⟨hfirst, hrest⟩ := List.cons.inj hsame
  refine ⟨hfirst, ?_, ?_, hrest⟩
  · rw [hslots', hslots, h.slots]
  · rw [hoccupied', hoccupied, h.occupied]

/-- If a number that was handed out is taken back, the table is like it was. -/
theorem of_taken_back (hreserve : t.reserve? = some (i, u)) : t.Alike (u.recycle i) := by
  obtain ⟨hupcoming, hslots, hoccupied⟩ := upcoming_of_reserve? hreserve
  exact ⟨hslots, hoccupied, hupcoming.symm⟩

end Alike

end SlotTable

/-! ## Alike regions -/

namespace Region

variable {r r' r'' : Region}

/-- The two regions differ at most in how they keep the slot numbers to come,
    and not in what these are. -/
def Alike (r r' : Region) : Prop := ∃ table, r.table.Alike table ∧ r' = { r with table }

namespace Alike

theorem refl (r : Region) : r.Alike r := ⟨r.table, .refl r.table, rfl⟩

theorem stats_eq (h : r.Alike r') : r'.stats = r.stats := by
  obtain ⟨table, htable, rfl⟩ := h
  simp only [stats, htable.occupied]

theorem lookup_eq (h : r.Alike r') (i : Nat) : r'.table.lookup i = r.table.lookup i := by
  obtain ⟨table, htable, rfl⟩ := h
  exact htable.lookup_eq i

/-- Tables that are alike, in regions that are. -/
theorem withTable (h : r.Alike r') {t t' : SlotTable} (htable : t.Alike t') :
    ({ r with table := t } : Region).Alike { r' with table := t' } := by
  obtain ⟨table, -, rfl⟩ := h
  exact ⟨t', htable, rfl⟩

theorem retire (h : r.Alike r') (slot : Nat) (linked : Bool) (segment : Option Nat) :
    (r.retire slot linked segment).Alike (r'.retire slot linked segment) := by
  obtain ⟨table, htable, rfl⟩ := h
  cases segment with
  | none => exact ⟨table, htable, rfl⟩
  | some n => exact ⟨table, htable, rfl⟩

theorem retireFreed (h : r.Alike r') (slot : Nat) :
    (r.retireFreed slot).Alike (r'.retireFreed slot) := by
  obtain ⟨table, htable, hrest⟩ := id h
  have hretired : r.table.Alike r'.table := by rw [hrest]; exact htable
  obtain ⟨hsegment, hafter⟩ := hretired.markRetired slot
  unfold Region.retireFreed
  dsimp only
  rw [hsegment]
  exact (h.withTable hafter).retire slot true _

theorem retireAllocation (h : r.Alike r') (slot : Nat) :
    (r.retireAllocation slot).Alike (r'.retireAllocation slot) := by
  obtain ⟨table, htable, hrest⟩ := id h
  have hunlinked : r.table.Alike r'.table := by rw [hrest]; exact htable
  obtain ⟨hsegment, hafter⟩ := hunlinked.unlink slot
  unfold Region.retireAllocation
  dsimp only
  rw [hsegment]
  exact (h.withTable hafter).retire slot false _

theorem foldr {α : Type} {change : α → Region → Region}
    (hchange : ∀ x {r r' : Region}, r.Alike r' → (change x r).Alike (change x r'))
    (h : r.Alike r') (xs : List α) : (xs.foldr change r).Alike (xs.foldr change r') := by
  induction xs with
  | nil => exact h
  | cons x rest ih => exact hchange x ih

theorem updateSegment (h : r.Alike r') (n : Nat) (change : Segment → Segment) :
    (r.updateSegment n change).Alike (r'.updateSegment n change) := by
  obtain ⟨table, htable, rfl⟩ := h
  exact ⟨table, htable, rfl⟩

theorem relink (h : r.Alike r') (slot : Nat) :
    ({ r with table := r.table.relink slot } : Region).Alike
      { r' with table := r'.table.relink slot } := by
  obtain ⟨table, htable, rfl⟩ := h
  exact ⟨table.relink slot, htable.relink slot, rfl⟩

theorem mark (h : r.Alike r') (slot : Nat) :
    ({ r with table := r.table.mark slot } : Region).Alike
      { r' with table := r'.table.mark slot } := by
  obtain ⟨table, htable, rfl⟩ := h
  exact ⟨table.mark slot, htable.mark slot, rfl⟩

/-- The end of a transaction. -/
theorem conclusion (h : r.Alike r') (t : Transaction) (committed : Bool) :
    (t.conclusion r committed).Alike (t.conclusion r' committed) := by
  cases committed with
  | true =>
    have hwords := h.foldr (fun ref _ _ hr => hr.updateSegment ref.segment
      fun s => s.commitWord t.id ref.word) t.touched
    obtain ⟨table, htable, hrest⟩ := hwords.foldr (fun slot _ _ hr => hr.retireFreed slot) t.freed
    refine ⟨table, htable, ?_⟩
    unfold Transaction.conclusion Transaction.commit
    simp only [if_true]
    rw [hrest]
    rfl
  | false =>
    have hwords := h.foldr (fun ref _ _ hr => hr.updateSegment ref.segment
      fun s => s.releaseWord t.id ref.word) t.touched
    have hslots := hwords.foldr (fun slot _ _ hr => hr.relink slot) t.freed
    obtain ⟨table, htable, hrest⟩ :=
      hslots.foldr (fun slot _ _ hr => hr.retireAllocation slot) t.allocated
    refine ⟨table, htable, ?_⟩
    unfold Transaction.conclusion Transaction.rollback
    simp only [Bool.false_eq_true, if_false]
    rw [hrest]
    rfl

/-! ### What hands out numbers and takes them back -/

theorem afterWait (h : r.Alike r') (e : Retirement) : (r.afterWait e).Alike (r'.afterWait e) := by
  obtain ⟨table, htable, rfl⟩ := h
  unfold Region.afterWait
  split
  · exact ⟨_, (htable.unlink e.slot).2, rfl⟩
  · exact ⟨_, htable.recycle e.slot, rfl⟩

theorem foldl (h : r.Alike r') (xs : List Retirement) :
    (xs.foldl Region.afterWait r).Alike (xs.foldl Region.afterWait r') := by
  induction xs generalizing r r' with
  | nil => exact h
  | cons e rest ih => exact ih (h.afterWait e)

/-- A collection releases the same segments in both regions. -/
theorem collect (h : r.Alike r') :
    r'.collect.1 = r.collect.1 ∧ r.collect.2.Alike r'.collect.2 := by
  obtain ⟨table, htable, rfl⟩ := h
  have hstart : ({ r with collector := r.collector.takeExpired.2 } : Region).Alike
      { r with table, collector := r.collector.takeExpired.2 } := ⟨table, htable, rfl⟩
  obtain ⟨table', htable', hrest⟩ := hstart.foldl r.collector.takeExpired.1
  refine ⟨rfl, table', htable', ?_⟩
  unfold Region.collect
  dsimp only
  rw [hrest]

/-- An attempt to allocate is given the same slot in both regions. -/
theorem tryAllocate (h : r.Alike r') (size : Nat) (memory : Bool) :
    (r'.tryAllocate size memory).1 = (r.tryAllocate size memory).1 ∧
      (r.tryAllocate size memory).2.Alike (r'.tryAllocate size memory).2 := by
  obtain ⟨table, htable, rfl⟩ := id h
  unfold Region.tryAllocate
  dsimp only [Region.charge?, Region.wordSize]
  by_cases hspans : maxSegmentBytes < size
  · rw [if_pos hspans, if_pos hspans]
    exact ⟨rfl, h⟩
  rw [if_neg hspans, if_neg hspans]
  by_cases hcharge : r.settings.byteLimit < r.bytesInUse + footprint size r.settings.wordSize
  · rw [if_pos hcharge]
    exact ⟨rfl, h⟩
  rw [if_neg hcharge]
  dsimp only
  cases hreserve : r.table.reserve? with
  | none =>
    rw [htable.reserve?_none hreserve]
    exact ⟨rfl, table, htable, rfl⟩
  | some reserved =>
    obtain ⟨slot, reserved⟩ := reserved
    cases hreserve' : table.reserve? with
    | none =>
      rw [htable.symm.reserve?_none hreserve'] at hreserve
      cases hreserve
    | some reserved' =>
      obtain ⟨slot', reserved'⟩ := reserved'
      obtain ⟨rfl, hafter⟩ := htable.reserve? hreserve hreserve'
      dsimp only
      -- The buffers are had for both of them or for neither.
      split
      · exact ⟨rfl, _, hafter.recycle slot', rfl⟩
      · exact ⟨rfl, _, hafter.publish slot' r.segments.size, rfl⟩

/-- An attempt that fails leaves the region like it was. -/
theorem of_failed {size : Nat} {memory : Bool} (hfailed : r.tryAllocate size memory = (none, r')) :
    r.Alike r' := by
  cases r.attempt_cases size memory with
  | refused why heq =>
    rw [heq] at hfailed
    cases hfailed
    exact refl r
  | undone nothing spans charged reserved heq =>
    rw [heq] at hfailed
    cases hfailed
    exact ⟨_, .of_taken_back reserved, rfl⟩
  | granted enough spans charged reserved heq =>
    rw [heq] at hfailed
    cases hfailed

end Alike

end Region

end TransactionalMemory
