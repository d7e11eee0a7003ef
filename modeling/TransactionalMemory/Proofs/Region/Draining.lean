import TransactionalMemory.Proofs.Region.Occupancy
import TransactionalMemory.Proofs.Region.Timing

/-! # Collecting while nobody is pinned

    If nobody is pinned, every pass of the collector moves the epoch on by one,
    and what was retired before the current epoch is taken. So what a pass
    leaves was retired in the epoch in which the pass began.

    - The first pass leaves nothing linked: whoever retires a linked segment
      leaves afterwards, and tries to move the epoch on. If it stays, somebody
      of the previous epoch holds it back.
    - Unlinking a segment moves the epoch on, too, and the segment waits from
      the new epoch on. The second pass has nothing left to unlink, so the epoch
      moves once, beyond all that still waits.
    - The third pass takes what is left. -/

namespace TransactionalMemory

namespace Collector

variable {α : Type} {c : Collector α} {count : Nat → Nat}

/-- After an attempt to advance, a value of the current epoch is one that
    somebody of the previous epoch has kept from growing older. -/
theorem pinned_of_mem_tryAdvance (ho : c.InOrder) (ht : c.clock.Tallies count) {x : Retired α}
    (hx : x ∈ c.entries) (he : x.epoch = c.tryAdvance.epoch) :
    count (c.tryAdvance.epoch - 1) ≠ 0 := by
  have hpast := ho.past x hx
  have hprevious := ht.previous
  by_cases hempty : c.clock.pinnedIn (c.clock.epoch - 1) = 0
  · -- The epoch has moved on since.
    have hmoved : c.tryAdvance.epoch = c.epoch + 1 := by
      simp [tryAdvance, epoch, EpochClock.tryAdvance, hempty]
    omega
  · have hstayed : c.tryAdvance.epoch = c.epoch := by
      simp [tryAdvance, epoch, EpochClock.tryAdvance, hempty]
    rw [hstayed]
    exact hprevious ▸ hempty

/-- What a pass leaves while nobody is pinned was retired in the epoch in which
    the pass began, and that one is over. -/
theorem epoch_eq_of_mem_takeExpired (ho : c.InOrder) (ht : c.clock.Tallies fun _ => 0)
    {x : Retired α} (hx : x ∈ c.takeExpired.2.entries) :
    x ∈ c.entries ∧ x.epoch = c.epoch ∧ c.takeExpired.2.epoch = c.epoch + 1 := by
  obtain ⟨taken, -, hsplit, -⟩ := ho.takeExpired
  have hmem : x ∈ c.entries := by rw [hsplit]; exact List.mem_append_right _ hx
  have hpast := ho.past x hmem
  have hyoung := ho.lt_of_mem_takeExpired hx
  have hadvanced : c.takeExpired.2.epoch = c.epoch + 1 := by
    have hempty : c.clock.pinnedIn (c.clock.epoch - 1) = 0 := ht.previous
    unfold takeExpired
    rw [if_neg (ho.pending_ne_zero hmem)]
    simp [tryAdvance, epoch, EpochClock.tryAdvance, hempty]
  refine ⟨hmem, ?_, hadvanced⟩
  simp only [graceEpochs] at hyoung
  omega

end Collector

namespace Region

variable {r : Region} {count : Nat → Nat}

/-! ## Linked retirements -/

/-- A linked retirement is of the current epoch only as long as somebody of the
    previous epoch holds the clock back. -/
def HeldBack (r : Region) (count : Nat → Nat) : Prop :=
  ∀ x ∈ r.collector.entries, x.value.linked = true → x.epoch = r.collector.epoch →
    count (r.collector.epoch - 1) ≠ 0

theorem heldBack_conclusion {t : Transaction} (h : r.Timed (EpochClock.joined count t.epoch))
    (committed : Bool) : (t.conclusion r committed).HeldBack count := by
  have hwaits := t.enqueues_rearranged r committed
  have htallies := h.tallies
  rw [← hwaits.clock] at htallies
  -- The collector when the transaction has left and has not tried to advance yet.
  let c := (t.rearranged r committed).collector
  have hleft : Collector.InOrder { c with clock := c.clock.leave t.epoch } :=
    (hwaits.inOrder h.inOrder).later rfl rfl (Nat.le_refl _)
  intro x hx _ he
  rw [t.collector_conclusion] at hx he ⊢
  exact Collector.pinned_of_mem_tryAdvance hleft htallies.leave hx he

theorem heldBack_takeExpired (h : r.Timed count) :
    HeldBack { r with collector := r.collector.takeExpired.2 } count := by
  intro x hx _ he
  change x ∈ r.collector.takeExpired.2.entries at hx
  change x.epoch = r.collector.takeExpired.2.epoch at he
  show count (r.collector.takeExpired.2.epoch - 1) ≠ 0
  obtain ⟨taken, -, hsplit, -⟩ := h.inOrder.takeExpired
  have hmem : x ∈ r.collector.entries := by rw [hsplit]; exact List.mem_append_right _ hx
  unfold Collector.takeExpired at he ⊢
  rw [if_neg (h.inOrder.pending_ne_zero hmem)] at he ⊢
  exact Collector.pinned_of_mem_tryAdvance h.inOrder h.tallies hmem he

theorem HeldBack.afterWait (hb : r.HeldBack count) (h : r.Timed count) (e : Retirement) :
    (r.afterWait e).HeldBack count := by
  unfold Region.afterWait
  split
  · -- What is retired again is not linked; for the rest, the pin in the middle of
    -- the collection was an attempt to advance.
    let c := r.collector.pin
    have hleft : Collector.InOrder { c with clock := c.clock.leave r.collector.epoch } :=
      h.inOrder.later rfl rfl (Nat.le_refl _)
    intro x hx hlinked he
    rw [entries_unlinkRetired] at hx
    rcases List.mem_append.1 hx with hold | hnew
    · exact Collector.pinned_of_mem_tryAdvance hleft h.tallies.enter.leave hold he
    · rw [List.mem_singleton.1 hnew] at hlinked
      cases hlinked
  · exact hb

theorem heldBack_collect (h : r.Timed count) : r.collect.2.HeldBack count := by
  have hfold : ∀ (batch : List Retirement) (r : Region), r.Timed count → r.HeldBack count →
      (batch.foldl Region.afterWait r).HeldBack count := by
    intro batch
    induction batch with
    | nil => exact fun _ _ hb => hb
    | cons e rest ih => exact fun r h hb => ih _ (h.afterWait e) (hb.afterWait h e)
  exact hfold r.collector.takeExpired.1 _ h.takeExpired (heldBack_takeExpired h)

/-! ## Three passes -/

/-- Nothing that waits is linked. -/
def Unlinked (r : Region) : Prop := ∀ x ∈ r.collector.entries, x.value.linked = false

theorem Unlinked.foldl (h : r.Unlinked) (batch : List Retirement) :
    (batch.foldl afterWait r).Unlinked := by
  induction batch generalizing r with
  | nil => exact h
  | cons e rest ih =>
    refine ih ?_
    unfold afterWait
    split
    · intro x hx
      rw [entries_unlinkRetired] at hx
      rcases List.mem_append.1 hx with hold | hnew
      · exact h x hold
      · rw [List.mem_singleton.1 hnew]; rfl
    · exact h

/-- Releasing segments leaves the collector as it is. -/
theorem collector_foldl_of_unlinked {batch : List Retirement}
    (h : ∀ e ∈ batch, e.linked = false) (r : Region) :
    (batch.foldl afterWait r).collector = r.collector := by
  induction batch generalizing r with
  | nil => rfl
  | cons e rest ih =>
    refine (ih (fun e he => h e (List.mem_cons_of_mem _ he)) _).trans ?_
    rw [afterWait, if_neg (by simp [h e List.mem_cons_self])]
    rfl

/-- The first pass leaves nothing linked. -/
theorem unlinked_collect (h : r.Timed fun _ => 0) (hb : r.HeldBack fun _ => 0) :
    r.collect.2.Unlinked := by
  refine Unlinked.foldl (r := { r with collector := r.collector.takeExpired.2 }) ?_ _
  intro x hx
  obtain ⟨hmem, hepoch, -⟩ := Collector.epoch_eq_of_mem_takeExpired h.inOrder h.tallies hx
  cases hlinked : x.value.linked with
  | false => rfl
  | true => exact absurd rfl (hb x hmem hlinked hepoch)

/-- If nothing is linked, a pass only takes what has expired. -/
theorem Unlinked.collector_collect (hu : r.Unlinked) :
    r.collect.2.collector = r.collector.takeExpired.2 := by
  refine collector_foldl_of_unlinked (fun e he => ?_) _
  have hwaiting : e ∈ r.collector.waiting := by
    rw [r.collector.waiting_takeExpired]
    exact List.mem_append_left _ he
  obtain ⟨x, hx, rfl⟩ := List.mem_map.1 hwaiting
  exact hu x hx

/-- The second pass leaves nothing of the epoch that it ends in. -/
theorem Unlinked.collect (hu : r.Unlinked) (h : r.Timed fun _ => 0) :
    r.collect.2.Unlinked ∧
      ∀ x ∈ r.collect.2.collector.entries, x.epoch < r.collect.2.collector.epoch := by
  unfold Unlinked
  rw [hu.collector_collect]
  have hleft := fun x => Collector.epoch_eq_of_mem_takeExpired (x := x) h.inOrder h.tallies
  refine ⟨fun x hx => hu x (hleft x hx).1, fun x hx => ?_⟩
  obtain ⟨-, hepoch, hadvanced⟩ := hleft x hx
  omega

/-- The third pass leaves nothing. -/
theorem Unlinked.entries_collect (hu : r.Unlinked) (h : r.Timed fun _ => 0)
    (hpast : ∀ x ∈ r.collector.entries, x.epoch < r.collector.epoch) :
    r.collect.2.collector.entries = [] := by
  rw [hu.collector_collect]
  refine List.eq_nil_iff_forall_not_mem.2 fun x hx => ?_
  obtain ⟨hmem, hepoch, -⟩ := Collector.epoch_eq_of_mem_takeExpired h.inOrder h.tallies hx
  exact absurd hepoch (Nat.ne_of_lt (hpast x hmem))

/-- Three passes leave nothing waiting, if nobody is pinned. -/
theorem entries_collect_thrice (h : r.Timed fun _ => 0) (hb : r.HeldBack fun _ => 0) :
    r.collect.2.collect.2.collect.2.collector.entries = [] := by
  have hfirst := unlinked_collect h hb
  obtain ⟨hsecond, hpast⟩ := hfirst.collect h.collect
  exact hsecond.entries_collect h.collect.collect hpast

/-! ## What a pass counts -/

/-- A pass returns how many segments it has released. -/
theorem reclaimed_collect (r : Region) : r.collect.2.reclaimed = r.reclaimed + r.collect.1 :=
  congrArg (· + _) (Accounted.reclaimed_foldl ..)

theorem next_foldl (r : Region) (batch : List Retirement) :
    (batch.foldl afterWait r).table.next = r.table.next := by
  induction batch generalizing r with
  | nil => rfl
  | cons e rest ih =>
    refine (ih _).trans ?_
    unfold afterWait
    split
    · exact SlotTable.next_set ..
    · rfl

/-- A pass hands out no slot number. -/
theorem next_collect (r : Region) : r.collect.2.table.next = r.table.next := next_foldl ..

/-- Slots in use count for the same after a pass. -/
theorem weight_collect (hs : r.Slotted) (h : r.Timed count) (w : Nat → Nat) :
    r.collect.2.table.weight w = r.table.weight w := by
  have hsheds := collect_spec hs h.inOrder h.tallies
  refine SlotTable.weight_congr r.next_collect fun i => ?_
  rcases Bool.eq_false_or_eq_true (r.table.lookup i).isOccupied with hused | hunused
  · rw [hsheds.used i hused]
  · rw [Slot.weigh_of_unoccupied hunused]
    rcases r.lookup_collect i with heq | hvacant
    · rw [heq, Slot.weigh_of_unoccupied hunused]
    · rw [hvacant]
      rfl

end Region

end TransactionalMemory
