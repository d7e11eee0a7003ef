import TransactionalMemory.Region.Basic

/-! # Retirement and release of segments

    A segment leaves use in one of two ways.

    - Its allocation was aborted. Nobody else can have reached it, so its slot
      is emptied at once and it is released after one wait.
    - Its free was committed. Read-only transactions may still reach it, so it
      stays linked for a first wait; then its slot is emptied, and it waits a
      second time for those who looked it up meanwhile.

    Only a released segment gives its bytes and its slot number back. -/

namespace TransactionalMemory.Region

/-- Hands a segment over to the collector, if there is one. -/
def retire (r : Region) (slot : Nat) (linked : Bool) : Option Nat → Region
  | none => r
  | some n =>
    let size := (r.segment? n).elim 0 Segment.size
    { r with collector :=
        r.collector.retire { slot, segment := n, bytes := footprint size r.wordSize, linked } }

/-- Retires the segment of a slot whose allocation was aborted. -/
def retireAllocation (r : Region) (slot : Nat) : Region :=
  let (segment, table) := r.table.unlink slot
  retire { r with table } slot false segment

/-- Retires the segment of a slot whose free was committed. -/
def retireFreed (r : Region) (slot : Nat) : Region :=
  let (segment, table) := r.table.markRetired slot
  retire { r with table } slot true segment

/-- Empties the slot of a segment that is still linked, and lets the segment
    wait once more. Whoever looked the slot up until now has pinned an epoch no
    later than the one the segment is retired in. -/
def unlinkRetired (r : Region) (e : Retirement) : Region :=
  let pinned := r.collector.epoch
  let collector := (r.collector.pin.unpin pinned).retire { e with linked := false }
  { r with table := (r.table.unlink e.slot).2, collector }

/-- Releases a segment: gives back its slot number and its bytes. -/
def release (r : Region) (e : Retirement) : Region :=
  { r with
    segments := r.segments.setIfInBounds e.segment none
    table := r.table.recycle e.slot
    bytesInUse := r.bytesInUse - e.bytes }

/-- What happens to a segment whose wait is over. -/
def afterWait (r : Region) (e : Retirement) : Region :=
  if e.linked then r.unlinkRetired e else r.release e

/-- Goes through the segments whose wait is over, oldest first, and returns how
    many were released. -/
def collect (r : Region) : Nat × Region :=
  let (expired, collector) := r.collector.takeExpired
  let released := expired.countP (!·.linked)
  let r := expired.foldl afterWait { r with collector }
  (released, { r with reclaimed := r.reclaimed + released })

end TransactionalMemory.Region
