import TransactionalMemory.Reclaim.EpochClock

/-! # Participants of an epoch clock

    A clock keeps three counts. They are the numbers of participants of the
    current epoch, of the previous one, and of the next one, which has none:
    the three epochs fall into different buckets, and whoever has entered and
    not left belongs to one of the first two.

    `Tallies` states this for a given number of participants in each epoch. It
    is kept by entering, by leaving, and by an attempt to advance: the epoch
    only moves on when the bucket that the new next epoch takes over is empty. -/

namespace TransactionalMemory.EpochClock

/-- The numbers of participants after one more has entered epoch `e`. -/
def joined (count : Nat → Nat) (e : Nat) : Nat → Nat :=
  fun f => if f = e then count f + 1 else count f

@[simp] theorem joined_self (count : Nat → Nat) (e : Nat) : joined count e e = count e + 1 := by
  simp [joined]

theorem joined_ne (count : Nat → Nat) {e f : Nat} (h : f ≠ e) : joined count e f = count f := by
  simp [joined, h]

/-- The clock counts `count e` participants in each epoch `e`. -/
structure Tallies (c : EpochClock) (count : Nat → Nat) : Prop where
  pos : 0 < c.epoch
  current : c.pinnedIn c.epoch = count c.epoch
  previous : c.pinnedIn (c.epoch - 1) = count (c.epoch - 1)
  next : c.pinnedIn (c.epoch + 1) = 0
  /-- Nobody is left in an older epoch, and nobody is in a later one. -/
  recent : ∀ e, count e ≠ 0 → e = c.epoch ∨ e + 1 = c.epoch

/-! ## Buckets of neighbouring epochs -/

theorem bucket_eq_iff (e f : Nat) : bucket e = bucket f ↔ e % epochBuckets = f % epochBuckets := by
  simp [bucket]

theorem pinnedIn_congr (c : EpochClock) {e f : Nat} (h : e % epochBuckets = f % epochBuckets) :
    c.pinnedIn e = c.pinnedIn f := by
  simp only [pinnedIn, (bucket_eq_iff e f).2 h]

theorem pinnedIn_setPinned_of_mod_ne (c : EpochClock) {e f : Nat} (count : Nat)
    (h : e % epochBuckets ≠ f % epochBuckets) : (c.setPinned e count).pinnedIn f = c.pinnedIn f :=
  pinnedIn_setPinned_ne c count fun eq => h ((bucket_eq_iff e f).1 eq)

/-! ## Steps -/

/-- A new clock counts nobody. -/
theorem tallies_new : Tallies {} fun _ => 0 where
  pos := by decide
  current := rfl
  previous := rfl
  next := rfl
  recent := fun _ h => absurd rfl h

namespace Tallies

variable {c : EpochClock} {count : Nat → Nat}

theorem enter (h : c.Tallies count) : c.enter.Tallies (joined count c.epoch) := by
  have hpos := h.pos
  constructor
  · exact hpos
  · show (c.setPinned c.epoch _).pinnedIn c.epoch = joined count c.epoch c.epoch
    rw [pinnedIn_setPinned_self, h.current, joined_self]
  · -- The previous epoch and the next one have buckets of their own.
    show (c.setPinned c.epoch _).pinnedIn (c.epoch - 1) = joined count c.epoch (c.epoch - 1)
    rw [pinnedIn_setPinned_of_mod_ne _ _ (by unfold epochBuckets; omega), h.previous]
    exact (joined_ne _ (by omega)).symm
  · show (c.setPinned c.epoch _).pinnedIn (c.epoch + 1) = 0
    rw [pinnedIn_setPinned_of_mod_ne _ _ (by unfold epochBuckets; omega), h.next]
  · intro e he
    show e = c.epoch ∨ e + 1 = c.epoch
    by_cases hc : e = c.epoch
    · exact .inl hc
    · rw [joined_ne _ hc] at he
      exact h.recent e he

/-- A participant that leaves was counted, in the bucket that its epoch has now. -/
theorem leave {e : Nat} (h : c.Tallies (joined count e)) : (c.leave e).Tallies count := by
  have hpos := h.pos
  have hnext := h.next
  have hrecent : e = c.epoch ∨ e + 1 = c.epoch := h.recent e (by simp)
  -- Its epoch is the current one or the previous one, and both are counted.
  have hcount : c.pinnedIn e = count e + 1 := by
    rcases hrecent with rfl | he
    · rw [h.current, joined_self]
    · have hprev := h.previous
      rwa [show c.epoch - 1 = e by omega, joined_self] at hprev
  have hself : (c.leave e).pinnedIn e = count e := by
    show (c.setPinned e (c.pinnedIn e - 1)).pinnedIn e = count e
    rw [pinnedIn_setPinned_self, hcount]
    omega
  have hother : ∀ f, f % epochBuckets ≠ e % epochBuckets →
      (c.leave e).pinnedIn f = c.pinnedIn f := fun f hf =>
    pinnedIn_setPinned_of_mod_ne c _ (Ne.symm hf)
  have hunchanged : ∀ f, f ≠ e → c.pinnedIn f = joined count e f →
      f % epochBuckets ≠ e % epochBuckets → (c.leave e).pinnedIn f = count f := by
    intro f hf hc hmod
    rw [hother f hmod, hc, joined_ne _ hf]
  constructor
  · exact hpos
  · show (c.leave e).pinnedIn c.epoch = count c.epoch
    by_cases hc : c.epoch = e
    · rw [hc]; exact hself
    · exact hunchanged _ hc h.current (by unfold epochBuckets; omega)
  · show (c.leave e).pinnedIn (c.epoch - 1) = count (c.epoch - 1)
    by_cases hc : c.epoch - 1 = e
    · rw [hc]; exact hself
    · exact hunchanged _ hc h.previous (by unfold epochBuckets; omega)
  · show (c.leave e).pinnedIn (c.epoch + 1) = 0
    rw [hother _ (by unfold epochBuckets; omega), hnext]
  · intro f hf
    refine h.recent f ?_
    unfold joined
    split <;> omega

/-- The epoch moves on only if nobody of the previous one is left, so the bucket
    of the new next epoch is empty. -/
theorem tryAdvance (h : c.Tallies count) : c.tryAdvance.Tallies count := by
  have hpos := h.pos
  unfold EpochClock.tryAdvance
  split
  next hempty =>
    have hgone : count (c.epoch - 1) = 0 := by rw [← h.previous, hempty]
    constructor
    · show 0 < c.epoch + 1
      omega
    · -- Nobody has entered the new current epoch yet.
      show c.pinnedIn (c.epoch + 1) = count (c.epoch + 1)
      rw [h.next]
      refine (Decidable.byContradiction fun hne => ?_ : 0 = count (c.epoch + 1))
      have := h.recent _ (Ne.symm hne)
      omega
    · show c.pinnedIn c.epoch = count c.epoch
      exact h.current
    · -- The new next epoch has the bucket of the one that is left behind.
      show c.pinnedIn (c.epoch + 2) = 0
      rw [← hempty]
      exact pinnedIn_congr c (by unfold epochBuckets; omega)
    · intro e he
      show e = c.epoch + 1 ∨ e + 1 = c.epoch + 1
      rcases h.recent e he with rfl | he'
      · exact .inr rfl
      · exact absurd hgone (by rw [show c.epoch - 1 = e by omega]; exact he)
  next => exact h

/-- As long as somebody of epoch `e` has not left, the epoch is `e` or the one after. -/
theorem epoch_le_of_ne_zero (h : c.Tallies count) {e : Nat} (he : count e ≠ 0) :
    e ≤ c.epoch ∧ c.epoch ≤ e + 1 := by
  have := h.recent e he
  omega

end Tallies

end TransactionalMemory.EpochClock
