import TransactionalMemory.Text.Record

/-! # Tagged pointers

    A pointer to a value aligned to a power of two has low bits that are always
    zero, and a small number, the tag, can be kept in them: `n` tag bits for an
    alignment of `2^n`, none for alignment one. So a tagged pointer is one
    64-bit word that stands for a pair: its remainder modulo the alignment is
    the tag, the rest is the pointer. Two tagged pointers are equal only if
    both parts are, and whether one is null depends on the pointer alone.

    A `PointerCell` holds one tagged pointer that is exchanged as a whole. -/

namespace TransactionalMemory

/-- A pointer to a value aligned to `align` bytes, with a tag in its low bits. -/
structure TaggedPointer (align : Nat) where
  /-- Pointer and tag in one word. -/
  bits : UInt64
  deriving DecidableEq

namespace TaggedPointer

variable {align : Nat}

def null : TaggedPointer align := ⟨0⟩

/-- An aligned pointer with tag 0. -/
def ofPointer (pointer : Nat) : TaggedPointer align := ⟨UInt64.ofNat pointer⟩

def tag (p : TaggedPointer align) : Nat := p.bits.toNat % align

def pointer (p : TaggedPointer align) : Nat := p.bits.toNat - p.tag

def isNull (p : TaggedPointer align) : Bool := p.pointer == 0

/-- The same pointer with another tag, of which only the bits that fit are kept. -/
def withTag (p : TaggedPointer align) (tag : Nat) : TaggedPointer align :=
  ⟨UInt64.ofNat (p.pointer + tag % align)⟩

/-- The fields of the one-line texts of pointers and cells. -/
def fields (p : TaggedPointer align) : List Text.Field :=
  [("ptr", Text.hexadecimal p.pointer), ("tag", Text.decimal p.tag)]

def describe (p : TaggedPointer align) : String := Text.record "Shared" p.fields

/-- The word is the sum of its two parts. -/
theorem pointer_add_tag (p : TaggedPointer align) : p.pointer + p.tag = p.bits.toNat := by
  have := Nat.mod_le p.bits.toNat align
  unfold pointer tag
  omega

/-- Pointer and tag determine the tagged pointer. -/
theorem eq_of_parts {p q : TaggedPointer align} (hp : p.pointer = q.pointer)
    (ht : p.tag = q.tag) : p = q := by
  have h : p.bits.toNat = q.bits.toNat := by
    rw [← p.pointer_add_tag, ← q.pointer_add_tag, hp, ht]
  cases p; cases q
  simpa using UInt64.toNat.inj h

end TaggedPointer

/-! ## Cells -/

/-- A place in memory that holds a tagged pointer. -/
structure PointerCell (align : Nat) where
  content : TaggedPointer align
  deriving DecidableEq

namespace PointerCell

variable {align : Nat}

def load (c : PointerCell align) : TaggedPointer align := c.content

def store (_ : PointerCell align) (new : TaggedPointer align) : PointerCell align := ⟨new⟩

/-- Puts `new` into the cell and returns what it held. -/
def swap (c : PointerCell align) (new : TaggedPointer align) :
    TaggedPointer align × PointerCell align :=
  (c.content, ⟨new⟩)

/-- Puts `new` into the cell if it holds exactly `expected`, tag included. Both
    outcomes carry what the cell held. -/
def compareExchange (c : PointerCell align) (expected new : TaggedPointer align) :
    Except (TaggedPointer align) (TaggedPointer align) × PointerCell align :=
  if c.content = expected then (.ok c.content, ⟨new⟩) else (.error c.content, c)

def pointer (c : PointerCell align) : Nat := c.content.pointer

def describe (c : PointerCell align) : String := Text.record "Atomic" c.content.fields

end PointerCell

end TransactionalMemory
