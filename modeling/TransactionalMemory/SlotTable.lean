import TransactionalMemory.Settings

/-! # The slot table

    A region reaches its segments through numbered slots; an address names a
    slot, so a slot keeps its number while anybody may hold such an address.
    A slot is

    - **vacant**: it holds no segment;
    - **live**: its segment is in use;
    - **freeing**: an open transaction has freed the segment; on commit the
      slot becomes retired, on abort live again;
    - **retired**: the free was committed, but read-only transactions that were
      open then may still reach the segment.

    Slot numbers whose segment has been released are handed out again, the last
    one first, before any new number. Segments are referred to by a number of
    their own that is never reused. -/

namespace TransactionalMemory

/-- What a slot holds; the argument is the number of the segment. -/
inductive Slot where
  | vacant
  /-- A segment in use. -/
  | live (segment : Nat)
  /-- A segment that an open transaction has freed. -/
  | freeing (segment : Nat)
  /-- A segment whose free was committed. -/
  | retired (segment : Nat)
  deriving DecidableEq, Inhabited

namespace Slot

def segment? : Slot → Option Nat
  | vacant => none
  | live n | freeing n | retired n => some n

/-- Whether the slot counts as occupied: retired segments do not. -/
def isOccupied : Slot → Bool
  | live _ | freeing _ => true
  | vacant | retired _ => false

/-- The slot with its segment marked as being freed. -/
def markedFreeing : Slot → Slot
  | vacant => vacant
  | live n | freeing n | retired n => freeing n

/-- The slot with its segment in use again. -/
def relinked : Slot → Slot
  | vacant => vacant
  | live n | freeing n | retired n => live n

/-- The slot with the free of its segment committed. -/
def markedRetired : Slot → Slot
  | vacant => vacant
  | live n | freeing n | retired n => retired n

end Slot

structure SlotTable where
  /-- What the slots hold; slots beyond the end are vacant. -/
  slots : Array Slot := #[]
  /-- The lowest slot number that was never handed out. -/
  next : Nat := 0
  /-- Slot numbers to be handed out again, the next one first. -/
  recycled : List Nat := []
  /-- Segments published less segments retired or unlinked, modulo 2^64: the
      number of occupied slots, as long as no segment is retired twice. -/
  occupied : UInt64 := 0
  deriving DecidableEq

namespace SlotTable

def lookup (t : SlotTable) (i : Nat) : Slot := t.slots[i]?.getD .vacant

/-- Changes what slot `i` holds. Emptying a slot beyond the end changes nothing. -/
def set (t : SlotTable) (i : Nat) (slot : Slot) : SlotTable :=
  if slot = .vacant ∧ t.slots.size ≤ i then t
  else
    let slots := t.slots ++ Array.replicate (i + 1 - t.slots.size) .vacant
    { t with slots := slots.setIfInBounds i slot }

/-- Hands out a slot number: the one recycled last, else a new one, as long as there are any. -/
def reserve? (t : SlotTable) : Option (Nat × SlotTable) :=
  match t.recycled with
  | i :: rest => some (i, { t with recycled := rest })
  | [] => if t.next < maxSegments then some (t.next, { t with next := t.next + 1 }) else none

/-- Takes back a slot number, to be handed out again. -/
def recycle (t : SlotTable) (i : Nat) : SlotTable := { t with recycled := i :: t.recycled }

/-- Puts a segment into slot `i`. -/
def publish (t : SlotTable) (i segment : Nat) : SlotTable :=
  let t := t.set i (.live segment)
  { t with occupied := t.occupied + 1 }

/-- Marks the segment of slot `i` as being freed. -/
def mark (t : SlotTable) (i : Nat) : SlotTable := t.set i (t.lookup i).markedFreeing

/-- Marks the segment of slot `i` as being freed, if the slot still is what it
    was when it was seen. Otherwise what it is now is returned. -/
def markFreeing (t : SlotTable) (i : Nat) (seen : Slot) : Except Slot SlotTable :=
  let now := t.lookup i
  if now = seen ∧ now ≠ .vacant then .ok (t.mark i) else .error now

/-- Puts the segment of slot `i` back into use after a free was aborted. -/
def relink (t : SlotTable) (i : Nat) : SlotTable := t.set i (t.lookup i).relinked

/-- Retires the segment of slot `i` after its free was committed, and returns it. -/
def markRetired (t : SlotTable) (i : Nat) : Option Nat × SlotTable :=
  let slot := t.lookup i
  let t := t.set i slot.markedRetired
  (slot.segment?, { t with occupied := t.occupied - 1 })

/-- Empties slot `i`, and returns the segment it held. The slot number stays in
    use until it is recycled. -/
def unlink (t : SlotTable) (i : Nat) : Option Nat × SlotTable :=
  let slot := t.lookup i
  let t := t.set i .vacant
  (slot.segment?, { t with occupied := if slot.isOccupied then t.occupied - 1 else t.occupied })

/-! ## Slots are independent -/

theorem lookup_set_self (t : SlotTable) (i : Nat) (slot : Slot) :
    (t.set i slot).lookup i = slot := by
  unfold set
  split
  next h => simp [lookup, Array.getElem?_eq_none h.2, h.1]
  next =>
    have : i < t.slots.size + (i + 1 - t.slots.size) := by omega
    simp [lookup, this]

theorem lookup_set_ne (t : SlotTable) {i j : Nat} (slot : Slot) (h : i ≠ j) :
    (t.set i slot).lookup j = t.lookup j := by
  unfold set
  split
  next => rfl
  next =>
    simp only [lookup, Array.getElem?_setIfInBounds_ne h, Array.getElem?_append,
      Array.getElem?_replicate]
    by_cases hj : j < t.slots.size
    · simp [hj]
    · simp only [hj, if_false]
      rw [Array.getElem?_eq_none (by omega)]
      split <;> rfl

@[simp] theorem next_set (t : SlotTable) (i : Nat) (slot : Slot) :
    (t.set i slot).next = t.next := by
  unfold set
  split <;> rfl

@[simp] theorem recycled_set (t : SlotTable) (i : Nat) (slot : Slot) :
    (t.set i slot).recycled = t.recycled := by
  unfold set
  split <;> rfl

@[simp] theorem occupied_set (t : SlotTable) (i : Nat) (slot : Slot) :
    (t.set i slot).occupied = t.occupied := by
  unfold set
  split <;> rfl

end SlotTable

end TransactionalMemory
