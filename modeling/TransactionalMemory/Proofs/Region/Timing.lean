import TransactionalMemory.Proofs.Region.Release
import TransactionalMemory.Proofs.Transaction.Conclusion

/-! # The clock of a region

    The clock counts who is pinned, and what waits is in the order of its
    epochs. Other than the agreement of the slots, this does not rest on what
    the transactions do: every change that the region makes keeps it.

    A retirement that is added is stamped with the current epoch, and it is
    added behind all others. -/

namespace TransactionalMemory

namespace Region

variable {r r' r'' : Region} {count : Nat → Nat}

/-- The clock counts `count e` participants in each epoch `e`, and what waits is
    in order. -/
structure Timed (r : Region) (count : Nat → Nat) : Prop where
  inOrder : r.collector.InOrder
  tallies : r.collector.clock.Tallies count

theorem Timed.congr (h : r.Timed count) (hcollector : r'.collector = r.collector) :
    r'.Timed count where
  inOrder := by rw [hcollector]; exact h.inOrder
  tallies := by rw [hcollector]; exact h.tallies

/-! ## Retirement -/

/-- From `r` to `r'` retirements are added in the current epoch, and the clock
    stays as it was. -/
structure Enqueues (r r' : Region) : Prop where
  clock : r'.collector.clock = r.collector.clock
  inOrder : r.collector.InOrder → r'.collector.InOrder
  added : ∃ new, r'.collector.entries = r.collector.entries ++ new ∧
    ∀ x ∈ new, x.epoch = r.collector.epoch

namespace Enqueues

theorem of_collector_eq (h : r'.collector = r.collector) : r.Enqueues r' where
  clock := by rw [h]
  inOrder := by rw [h]; exact id
  added := ⟨[], by rw [h, List.append_nil], fun _ hx => nomatch hx⟩

theorem trans (h : r.Enqueues r') (h' : r'.Enqueues r'') : r.Enqueues r'' where
  clock := h'.clock.trans h.clock
  inOrder := h'.inOrder ∘ h.inOrder
  added := by
    obtain ⟨new, hnew, hstamps⟩ := h.added
    obtain ⟨new', hnew', hstamps'⟩ := h'.added
    have hepoch : r'.collector.epoch = r.collector.epoch := congrArg EpochClock.epoch h.clock
    refine ⟨new ++ new', by rw [hnew', hnew, List.append_assoc], fun x hx => ?_⟩
    rcases List.mem_append.1 hx with hx | hx
    · exact hstamps x hx
    · exact (hstamps' x hx).trans hepoch

theorem foldr {op : Nat → Region → Region} (hop : ∀ (r : Region) i, r.Enqueues (op i r))
    (r : Region) (slots : List Nat) : r.Enqueues (slots.foldr op r) := by
  induction slots with
  | nil => exact of_collector_eq rfl
  | cons i rest ih => exact ih.trans (hop _ i)

end Enqueues

/-- What is retired waits behind all others, from the current epoch on. -/
theorem enqueues_retire (r : Region) (table : SlotTable) (i : Nat) (linked : Bool)
    (segment : Option Nat) : r.Enqueues (retire { r with table } i linked segment) := by
  cases segment with
  | none => exact .of_collector_eq rfl
  | some n =>
    refine ⟨rfl, fun h => h.retire _, _, entries_retire .., fun x hx => ?_⟩
    rw [List.mem_singleton.1 hx]
    rfl

theorem enqueues_retireFreed (r : Region) (i : Nat) : r.Enqueues (r.retireFreed i) :=
  r.enqueues_retire (r.table.markRetired i).2 i true _

theorem enqueues_retireAllocation (r : Region) (i : Nat) : r.Enqueues (r.retireAllocation i) :=
  r.enqueues_retire (r.table.unlink i).2 i false _

theorem enqueues_relink (r : Region) (i : Nat) :
    r.Enqueues { r with table := r.table.relink i } := .of_collector_eq rfl

end Region

namespace Transaction

variable {t : Transaction} {r : Region} {count : Nat → Nat}

/-- The end of a transaction retires slots, in the current epoch. -/
theorem enqueues_rearranged (t : Transaction) (r : Region) (committed : Bool) :
    r.Enqueues (t.rearranged r committed) := by
  have hsettled : r.Enqueues (r.settleWords t.id committed t.touched) :=
    .of_collector_eq (r.settleWords_spec t.id committed t.touched).1.collector_eq
  unfold rearranged
  split
  · exact hsettled.trans (.foldr Region.enqueues_retireFreed _ _)
  · exact (hsettled.trans (.foldr Region.enqueues_relink _ _)).trans
      (.foldr Region.enqueues_retireAllocation _ _)

/-- What comes after that, for the collector: the transaction is not pinned any more. -/
theorem collector_conclusion (t : Transaction) (r : Region) (committed : Bool) :
    (t.conclusion r committed).collector = (t.rearranged r committed).collector.unpin t.epoch := by
  obtain ⟨gate, commits, aborts, heq⟩ := t.conclusion_eq r committed
  rw [heq]

/-- After the end of a transaction, one participant less is counted in its epoch. -/
theorem timed_conclusion (h : r.Timed (EpochClock.joined count t.epoch)) (committed : Bool) :
    (t.conclusion r committed).Timed count := by
  have hwaits := t.enqueues_rearranged r committed
  have htallies := h.tallies
  rw [← hwaits.clock] at htallies
  constructor
  · rw [collector_conclusion]
    exact (hwaits.inOrder h.inOrder).later rfl rfl (Collector.epoch_le_unpin ..)
  · rw [collector_conclusion]
    exact htallies.leave.tryAdvance

end Transaction

namespace Region

variable {r : Region} {count : Nat → Nat}

/-! ## Collection -/

/-- What has left its slot waits a second time, behind all others. -/
theorem entries_unlinkRetired (r : Region) (e : Retirement) :
    (r.unlinkRetired e).collector.entries = r.collector.entries ++
      [.inEpoch (r.collector.pin.unpin r.collector.epoch).epoch { e with linked := false }] :=
  Collector.entries_retire ..

namespace Timed

theorem takeExpired (h : r.Timed count) :
    Timed { r with collector := r.collector.takeExpired.2 } count := by
  obtain ⟨-, -, -, -, hinOrder⟩ := h.inOrder.takeExpired
  exact ⟨hinOrder, tallies_takeExpired h.tallies⟩

theorem unlinkRetired (h : r.Timed count) (e : Retirement) : (r.unlinkRetired e).Timed count where
  inOrder := (h.inOrder.later (d := r.collector.pin.unpin r.collector.epoch) rfl rfl
    (r.collector.pin.epoch_le_unpin _)).retire _
  tallies := tallies_pin_unpin h.tallies

theorem afterWait (h : r.Timed count) (e : Retirement) : (r.afterWait e).Timed count := by
  unfold Region.afterWait
  split
  · exact h.unlinkRetired e
  · exact h.congr rfl

theorem foldl (h : r.Timed count) (batch : List Retirement) :
    (batch.foldl Region.afterWait r).Timed count := by
  induction batch generalizing r with
  | nil => exact h
  | cons e rest ih => exact ih (h.afterWait e)

theorem collect (h : r.Timed count) : r.collect.2.Timed count :=
  (h.takeExpired.foldl r.collector.takeExpired.1).congr rfl

end Timed

end Region

end TransactionalMemory
