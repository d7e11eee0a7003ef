import TransactionalMemory.Admission.Gate
import TransactionalMemory.Admission.Identity
import TransactionalMemory.Reclaim.Collector
import TransactionalMemory.Segment.Access
import TransactionalMemory.SlotTable

/-! # Regions

    A region is shared memory: segments reached through slots, with everything
    that its transactions share. It begins with one permanent segment in slot 0
    and grows and shrinks by allocation and release.

    Every segment ever allocated has a number of its own. The bytes of all
    segments that have not been released count against the memory limit. A
    segment that has left use waits in the collector until no transaction can
    still be using it. -/

namespace TransactionalMemory

/-- A segment that has left use and waits to be released. -/
structure Retirement where
  /-- The slot it was reached through. -/
  slot : Nat
  segment : Nat
  bytes : Nat
  /-- Whether its slot still holds it, for read-only transactions that were
      open when its free was committed. -/
  linked : Bool
  deriving DecidableEq

/-- Shared memory with everything that its transactions share. -/
structure Region where
  settings : Settings
  /-- Who is inside. -/
  gate : Gate := { policy := settings.admission }
  ids : IdSource := {}
  /-- The segments by their number; `none` once released. -/
  segments : Array (Option Segment) := #[]
  table : SlotTable := {}
  /-- The segments that wait to be released. -/
  collector : Collector Retirement := {}
  /-- Bytes held by the segments that have not been released. -/
  bytesInUse : Nat := 0
  commits : Nat := 0
  aborts : Nat := 0
  /-- Segments released so far. -/
  reclaimed : Nat := 0

namespace Region

def permanentSlot : Nat := 0

def wordSize (r : Region) : Nat := r.settings.wordSize

/-- Size of the permanent segment, as asked for. -/
def size (r : Region) : Nat := r.settings.size

/-- The address of the first byte of the permanent segment. -/
def start : Address := Address.ofParts permanentSlot 0

/-! ## Segments -/

/-- The segment with number `n`, unless it was released. -/
def segment? (r : Region) (n : Nat) : Option Segment := (r.segments[n]?).join

/-- Changes the segment with number `n`, unless it was released. -/
def updateSegment (r : Region) (n : Nat) (change : Segment → Segment) : Region :=
  { r with segments := r.segments.modify n (Option.map change) }

@[simp] theorem segment?_updateSegment_self (r : Region) (n : Nat) (change : Segment → Segment) :
    (r.updateSegment n change).segment? n = (r.segment? n).map change := by
  unfold segment? updateSegment
  rw [Array.getElem?_modify]
  rcases r.segments[n]? with _ | _ | s <;> simp

theorem segment?_updateSegment_ne (r : Region) {n m : Nat} (change : Segment → Segment)
    (h : n ≠ m) : (r.updateSegment n change).segment? m = r.segment? m := by
  simp [segment?, updateSegment, Array.getElem?_modify, h]

/-- The bytes in use with some more charged, unless they go beyond the memory limit. -/
def charge? (r : Region) (bytes : Nat) : Option Nat :=
  let used := r.bytesInUse + bytes
  if r.settings.byteLimit < used then none else some used

/-- Tries to allocate a segment of zeros, and returns its slot. An address must
    span the segment; then its bytes are charged, a slot is reserved, and the
    buffers are allocated, if there is `memory` for them. If one of these fails,
    those before it are undone. -/
def tryAllocate (r : Region) (size : Nat) (memory : Bool) : Option Nat × Region :=
  let bytes := footprint size r.wordSize
  if maxSegmentBytes < size then (none, r)
  else
    match r.charge? bytes with
    | none => (none, r)
    | some used =>
      match r.table.reserve? with
      | none => (none, { r with bytesInUse := used - bytes })
      | some (slot, table) =>
        match Segment.create? slot size r.wordSize memory with
        | none => (none, { r with table := table.recycle slot, bytesInUse := used - bytes })
        | some segment =>
          (some slot, { r with
            segments := r.segments.push (some segment)
            table := table.publish slot r.segments.size
            bytesInUse := used })

/-- A region with its permanent segment, if there is `memory` for its buffers. -/
def create (settings : Settings) (memory : Bool := true) : Except Failure Region :=
  match settings.check with
  | .error failure => .error failure
  | .ok () =>
    match tryAllocate { settings } settings.permanentSize memory with
    | (none, _) => .error .outOfMemory
    | (some _, r) => .ok r

/-! ## Texts -/

def describe (r : Region) : String :=
  Text.record "Region"
    [("size", Text.decimal r.size), ("align", Text.decimal r.wordSize),
     ("admission", r.gate.policy.describe), ("segments", Text.decimal r.table.occupied.toNat)]

end Region

/-- Counters and occupancy of a region. -/
structure Stats where
  commits : Nat := 0
  aborts : Nat := 0
  /-- Slots that are live or freeing. -/
  liveSegments : Nat := 0
  /-- Segments that wait to be released. -/
  pendingReclamation : Nat := 0
  reclaimed : Nat := 0
  epoch : Nat := 0
  /-- Bytes held by the segments that have not been released. -/
  bytesInUse : Nat := 0
  deriving DecidableEq

def Region.stats (r : Region) : Stats where
  commits := r.commits
  aborts := r.aborts
  liveSegments := r.table.occupied.toNat
  pendingReclamation := r.collector.pending
  reclaimed := r.reclaimed
  epoch := r.collector.epoch
  bytesInUse := r.bytesInUse

def Stats.describe (s : Stats) : String :=
  Text.record "RegionStats"
    [("commits", Text.decimal s.commits), ("aborts", Text.decimal s.aborts),
     ("live_segments", Text.decimal s.liveSegments),
     ("pending_reclamation", Text.decimal s.pendingReclamation),
     ("reclaimed", Text.decimal s.reclaimed), ("epoch", Text.decimal s.epoch),
     ("bytes_in_use", Text.decimal s.bytesInUse)]

end TransactionalMemory
