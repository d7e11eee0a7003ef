import TransactionalMemory.Text.Record

/-! # Addresses

    An address names a byte of a segment without being a machine pointer. It
    is one 64-bit word, so it can itself be stored in shared memory:

    - the upper 24 bits hold the slot of the segment, plus one;
    - the lower 40 bits hold the byte offset inside the segment.

    The word 0 is the null address. An address whose upper bits are 0 names no
    slot. Going `n` bytes further is addition modulo 2^64, so inside one
    segment it changes the offset alone. -/

namespace TransactionalMemory

/-- The name of a byte in a region. -/
structure Address where
  /-- Slot number plus one in the upper 24 bits, byte offset in the lower 40. -/
  bits : UInt64
  deriving DecidableEq

namespace Address

/-! ## Layout -/

/-- Number of different byte offsets that an address can hold. -/
def offsetSpan : Nat := 1 <<< 40

/-- The largest slot that an address can name. -/
def maxSlot : Nat := (1 <<< 24) - 2

def null : Address := ⟨0⟩

instance : Inhabited Address := ⟨null⟩

/-- The address of byte `offset` in the segment of slot `slot`: the two parts are
    laid over each other. They do not overlap as long as `offset < offsetSpan`. -/
def ofParts (slot offset : Nat) : Address :=
  ⟨UInt64.ofNat ((slot + 1) * offsetSpan) ||| UInt64.ofNat offset⟩

def isNull (a : Address) : Bool := a.bits == 0

/-- The slot of the segment, if the address names one. -/
def slot? (a : Address) : Option Nat :=
  match a.bits.toNat / offsetSpan with
  | 0 => none
  | n + 1 => some n

def offset (a : Address) : Nat := a.bits.toNat % offsetSpan

/-- The address `n` bytes further on, modulo 2^64. -/
def advance (a : Address) (n : Nat) : Address := ⟨a.bits + UInt64.ofNat n⟩

def compare (a b : Address) : Ordering := Ord.compare a.bits.toNat b.bits.toNat

/-! ## Text -/

def describe (a : Address) : String :=
  let place := match a.slot? with
    | some slot => Text.decimal slot ++ ":"
    | none => "null+"
  Text.applied "Addr" (place ++ Text.hexadecimal a.offset)

end Address

end TransactionalMemory
