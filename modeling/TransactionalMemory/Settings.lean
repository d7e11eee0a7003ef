import TransactionalMemory.Failure

/-! # Region settings

    What a region is created with: the size of its permanent segment, the
    alignment asked for, the admission policy and an optional limit on the
    bytes it may hold. Words are at least eight bytes wide, so that a word can
    hold an address. A layout is sound when the alignment is a power of two and
    the size a positive multiple of it that one address can span. -/

namespace TransactionalMemory

/-- How transactions are let in. -/
inductive Admission where
  /-- Every transaction is let in at once; conflicts are found word by word. -/
  | optimistic
  /-- Read-only transactions share the region, a read-write one has it alone. -/
  | exclusive
  deriving DecidableEq, Inhabited

def Admission.describe : Admission → String
  | .optimistic => "Optimistic"
  | .exclusive => "Exclusive"

/-! ## Limits -/

def minWordSize : Nat := 8

/-- Number of slots that a region can ever hand out. -/
def maxSegments : Nat := 1 <<< 22

/-- Slots come in groups of this many. -/
def slotGroup : Nat := 1024

/-- The largest segment, in bytes: as many as an address has offsets. -/
def maxSegmentBytes : Nat := Address.offsetSpan

/-- The largest byte count that a 64-bit word holds; the limit of a region without one. -/
def maxBytes : Nat := UInt64.size - 1

def controlBytes : Nat := 16

/-! ## Sizes -/

def isPowerOfTwo (n : Nat) : Bool := 1 <<< n.log2 == n

/-- The least multiple of `step` that is not below `n`. -/
def roundUp (n step : Nat) : Nat := (n + step - 1) / step * step

/-- Bytes held by a segment of `size` bytes in words of `wordSize` bytes: two
    copies of every word, and a control for each. -/
def footprint (size wordSize : Nat) : Nat := 2 * size + size / wordSize * controlBytes

/-! ## Settings -/

/-- What a region is created with. -/
structure Settings where
  /-- Size of the permanent segment in bytes, as asked for. -/
  size : Nat
  align : Nat
  admission : Admission := .optimistic
  /-- Most bytes that the region may hold, if limited. -/
  memoryLimit : Option Nat := none
  deriving DecidableEq

namespace Settings

/-- Bytes in a word: the alignment, but no less than the narrowest word. -/
def wordSize (s : Settings) : Nat := max s.align minWordSize

/-- Refuses an alignment that is no power of two, and a size that is zero, no
    multiple of the alignment, or more than an address can span. -/
def check (s : Settings) : Except Failure Unit :=
  if isPowerOfTwo s.align ∧ s.size ≠ 0 ∧ s.size % s.align = 0 ∧ s.size ≤ maxSegmentBytes then
    .ok ()
  else
    .error (.invalidLayout s.size s.align)

/-- Size of the permanent segment: the size asked for, rounded up to whole words. -/
def permanentSize (s : Settings) : Nat := roundUp s.size s.wordSize

/-- Bytes that the region may hold at most. -/
def byteLimit (s : Settings) : Nat := s.memoryLimit.getD maxBytes

def describe (s : Settings) : String :=
  Text.record "RegionConfig"
    [("size", Text.decimal s.size), ("align", Text.decimal s.align),
     ("admission", s.admission.describe), ("memory_limit", Text.optional s.memoryLimit)]

end Settings

end TransactionalMemory
