/-! # The retirement queue

    Retired values wait here in the order of their retirement, each stamped
    with the epoch in which it was retired. A value is due two epochs after its
    stamp, and has expired once the global epoch has come that far. As long as
    stamps never decrease along the queue, the expired values are at its front;
    the end of that front is found by bisection.

    A collector counts its epochs without bound. A stamp may also be given as a
    64-bit word; then the epoch in which the value is due is such a word too. -/

namespace TransactionalMemory

/-- How many epochs after its stamp a value is due. -/
def graceEpochs : Nat := 2

/-! ## Bisection -/

namespace Bisection

/-- Halves the window of `size` indices from `base` on, keeping the part in which
    `holds` changes from true to false, until one index is left. Each round
    uses one unit of fuel, and a window of `size` indices needs fewer than
    `size` rounds. -/
def search (holds : Nat → Bool) : (fuel base size : Nat) → Nat
  | fuel + 1, base, size =>
    if size ≤ 1 then if holds base then base + 1 else base
    else
      let half := size / 2
      search holds fuel (if holds (base + half) then base + half else base) (size - half)
  | 0, base, _ => base

/-- The first of the indices `0 … size` from which on `holds` is false, provided
    that it holds on an initial part of them. -/
def boundary (size : Nat) (holds : Nat → Bool) : Nat :=
  if size = 0 then 0 else search holds size 0 size

end Bisection

/-! ## Queue -/

/-- A retired value with the epoch of its retirement. -/
structure Retired (α : Type) where
  /-- The global epoch when the value was retired. -/
  epoch : Nat
  /-- The global epoch from which on nobody can still see the value. -/
  due : Nat
  value : α
  deriving DecidableEq

namespace Retired

variable {α : Type}

/-- A value retired in epoch `e`. -/
def inEpoch (e : Nat) (value : α) : Retired α := ⟨e, e + graceEpochs, value⟩

/-- A value stamped with a word. Its due epoch is a word as well, so for the last
    two stamps it is zero and one. -/
def stamped (stamp : UInt64) (value : α) : Retired α :=
  ⟨stamp.toNat, (stamp + UInt64.ofNat graceEpochs).toNat, value⟩

/-- Whether nobody can still see the value when the global epoch is `now`. -/
def expired (r : Retired α) (now : Nat) : Bool := r.due ≤ now

/-- Below the last two stamps a word is as good as a number. -/
theorem stamped_eq_inEpoch {stamp : UInt64} (value : α)
    (h : stamp.toNat + graceEpochs < UInt64.size) :
    stamped stamp value = inEpoch stamp.toNat value := by
  have hdue : (stamp + UInt64.ofNat graceEpochs).toNat = stamp.toNat + graceEpochs := by
    rw [UInt64.toNat_add]
    exact Nat.mod_eq_of_lt h
  rw [stamped, inEpoch, hdue]

end Retired

/-- Retired values in the order of their retirement. -/
structure RetirementQueue (α : Type) where
  /-- The entries, oldest first. -/
  entries : Array (Retired α) := #[]

namespace RetirementQueue

variable {α : Type}

def size (q : RetirementQueue α) : Nat := q.entries.size

/-- Queues an entry behind all others. -/
def push (q : RetirementQueue α) (entry : Retired α) : RetirementQueue α :=
  ⟨q.entries.push entry⟩

/-- How many entries at the front have expired when the global epoch is `now`. -/
def expiredCount (q : RetirementQueue α) (now : Nat) : Nat :=
  Bisection.boundary q.entries.size fun i => (q.entries[i]?).any (·.expired now)

/-- The entries that have expired when the global epoch is `now`, oldest first. -/
def expiredEntries (q : RetirementQueue α) (now : Nat) : List (Retired α) :=
  q.entries.toList.take (q.expiredCount now)

/-- The queue without the entries that have expired when the global epoch is `now`. -/
def dropExpired (q : RetirementQueue α) (now : Nat) : RetirementQueue α :=
  ⟨(q.entries.toList.drop (q.expiredCount now)).toArray⟩

/-- Cutting the queue loses no entry and keeps their order. -/
theorem expiredEntries_append_dropExpired (q : RetirementQueue α) (now : Nat) :
    q.expiredEntries now ++ (q.dropExpired now).entries.toList = q.entries.toList := by
  simp [expiredEntries, dropExpired]

end RetirementQueue

end TransactionalMemory
