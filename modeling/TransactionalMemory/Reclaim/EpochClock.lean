/-! # The epoch clock

    A global epoch and the number of participants pinned in it. A participant
    is counted in the epoch it entered in until it leaves. The epoch moves from
    `e` to `e + 1` only when nobody pinned in `e - 1` is left, so participants
    are only ever pinned in the current epoch or the one before, and three
    buckets, taken by the epoch modulo three, keep their counts apart. -/

namespace TransactionalMemory

def epochBuckets : Nat := 3

/-- The epoch a clock starts in; above zero, so that there is one before it. -/
def firstEpoch : Nat := 1

/-- A global epoch with its participants. -/
structure EpochClock where
  epoch : Nat := firstEpoch
  buckets : Vector Nat epochBuckets := .replicate epochBuckets 0
  deriving DecidableEq

namespace EpochClock

/-- The bucket in which participants of epoch `e` are counted. -/
def bucket (e : Nat) : Fin epochBuckets := ⟨e % epochBuckets, Nat.mod_lt e (by decide)⟩

/-- Participants counted in the bucket of epoch `e`. -/
def pinnedIn (c : EpochClock) (e : Nat) : Nat := c.buckets[bucket e]

def setPinned (c : EpochClock) (e count : Nat) : EpochClock :=
  { c with buckets := c.buckets.set (bucket e) count }

def enter (c : EpochClock) : EpochClock := c.setPinned c.epoch (c.pinnedIn c.epoch + 1)

/-- A participant that entered in epoch `e` leaves. -/
def leave (c : EpochClock) (e : Nat) : EpochClock := c.setPinned e (c.pinnedIn e - 1)

/-- Moves to the next epoch if nobody pinned in the previous one is left. -/
def tryAdvance (c : EpochClock) : EpochClock :=
  if c.pinnedIn (c.epoch - 1) = 0 then { c with epoch := c.epoch + 1 } else c

/-! ## What each step does to the counts -/

theorem pinnedIn_setPinned_self (c : EpochClock) (e count : Nat) :
    (c.setPinned e count).pinnedIn e = count := by
  simp [pinnedIn, setPinned]

theorem pinnedIn_setPinned_ne (c : EpochClock) {e f : Nat} (count : Nat)
    (h : bucket e ≠ bucket f) : (c.setPinned e count).pinnedIn f = c.pinnedIn f := by
  simp only [pinnedIn, setPinned]
  exact Vector.getElem_set_ne _ _ (fun eq => h (Fin.ext eq))

/-- The epoch never goes back. -/
theorem epoch_le_tryAdvance (c : EpochClock) : c.epoch ≤ c.tryAdvance.epoch := by
  unfold tryAdvance
  split <;> simp

end EpochClock

end TransactionalMemory
