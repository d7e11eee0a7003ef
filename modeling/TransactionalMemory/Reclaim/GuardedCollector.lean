import TransactionalMemory.Reclaim.Collector

/-! # A collector with its guards

    A guard is the right of one participant to look at values: it is taken when
    the participant pins, remembers the epoch it pinned, and is given back when
    the participant leaves. Guards are numbered in the order in which they were
    taken.

    `reclaim` releases every expired value through a callback. The callback may
    use the collector again in any way, also reclaim from it: the values it is
    called on have already left the queue. -/

namespace TransactionalMemory

/-- A collector together with the guards taken on it. -/
structure GuardedCollector (α : Type) where
  collector : Collector α := {}
  /-- The epoch of each guard by its number, `none` once it was given back. -/
  guards : Array (Option Nat) := #[]

namespace GuardedCollector

variable {α : Type}

/-- Takes a guard and returns its number. -/
def pin (g : GuardedCollector α) : Nat × GuardedCollector α :=
  (g.guards.size,
    { collector := g.collector.pin, guards := g.guards.push (some g.collector.epoch) })

/-- The epoch of a guard that has not been given back. -/
def guard? (g : GuardedCollector α) (number : Nat) : Option Nat := (g.guards[number]?).join

/-- Gives a guard back. Nothing happens if there is no such guard. -/
def unpin (g : GuardedCollector α) (number : Nat) : GuardedCollector α :=
  match g.guard? number with
  | none => g
  | some e =>
    { collector := g.collector.unpin e, guards := g.guards.setIfInBounds number none }

/-- Gives back every guard that is left, in the order in which they were taken. -/
def unpinAll (g : GuardedCollector α) : GuardedCollector α :=
  (List.range g.guards.size).foldl unpin g

def retire (g : GuardedCollector α) (value : α) : GuardedCollector α :=
  { g with collector := g.collector.retire value }

def tryAdvance (g : GuardedCollector α) : GuardedCollector α :=
  { g with collector := g.collector.tryAdvance }

/-- Takes the expired values out of the queue. -/
def takeExpired (g : GuardedCollector α) : List α × GuardedCollector α :=
  let (taken, collector) := g.collector.takeExpired
  (taken, { g with collector })

/-- Takes the expired values and calls `release` on each of them, oldest first.
    Besides the guarded collector, the callback may use a state of its own. -/
def reclaim {σ β : Type} (release : α → StateM (GuardedCollector α × σ) β) :
    StateM (GuardedCollector α × σ) (List (α × β)) := do
  let taken ← modifyGet fun (g, s) => let (taken, g) := g.takeExpired; (taken, (g, s))
  taken.mapM fun value => do return (value, ← release value)

def describeGuard (e : Nat) : String := Text.record "Guard" [("epoch", Text.decimal e)]

end GuardedCollector

end TransactionalMemory
