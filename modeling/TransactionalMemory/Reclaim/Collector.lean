import TransactionalMemory.Reclaim.EpochClock
import TransactionalMemory.Reclaim.RetirementQueue
import TransactionalMemory.Text.Record

/-! # The collector

    Deferred release of values that participants may still be looking at. A
    participant pins the current epoch while it looks. A value that has been
    made unreachable is retired in the current epoch, and may be released once
    the epoch is two ahead: by then everybody who was pinned when it was
    retired has left.

    Releasing is done by the caller: `takeExpired` hands over the values that
    have expired, oldest first. -/

namespace TransactionalMemory

/-- An epoch clock with the values retired under it. -/
structure Collector (α : Type) where
  /-- The epoch and who is pinned. -/
  clock : EpochClock := {}
  /-- The values that wait for their release. -/
  queue : RetirementQueue α := {}
  /-- Number of values that wait. -/
  pending : Nat := 0

namespace Collector

variable {α : Type}

def epoch (c : Collector α) : Nat := c.clock.epoch

def pin (c : Collector α) : Collector α := { c with clock := c.clock.enter }

/-- A participant that pinned epoch `e` leaves, and tries to move the epoch along. -/
def unpin (c : Collector α) (e : Nat) : Collector α :=
  { c with clock := (c.clock.leave e).tryAdvance }

def tryAdvance (c : Collector α) : Collector α := { c with clock := c.clock.tryAdvance }

/-- Queues a value in the current epoch. -/
def retire (c : Collector α) (value : α) : Collector α :=
  { c with queue := c.queue.push (.inEpoch c.epoch value), pending := c.pending + 1 }

/-- Tries to move the epoch along and hands over the values that have expired
    by then, oldest first. Does nothing when no value waits. -/
def takeExpired (c : Collector α) : List α × Collector α :=
  if c.pending = 0 then ([], c)
  else
    let c := c.tryAdvance
    let taken := c.queue.expiredEntries c.epoch
    (taken.map (·.value),
      { c with queue := c.queue.dropExpired c.epoch, pending := c.pending - taken.length })

/-- The values still waiting, oldest first. -/
def waiting (c : Collector α) : List α := c.queue.entries.toList.map (·.value)

def describe (c : Collector α) : String :=
  Text.record "Collector" [("epoch", Text.decimal c.epoch), ("pending", Text.decimal c.pending)]

end Collector

end TransactionalMemory
