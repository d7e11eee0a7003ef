import TransactionalMemory.Word.LittleEndian

/-! # Lanes

    A copy of a segment is a row of 64-bit lanes, eight bytes each, and a word
    spans one or more neighbouring lanes. Bytes go into lanes eight at a time;
    bytes that do not fill a lane are left out. -/

namespace TransactionalMemory

def laneBytes : Nat := 8

/-- Eight bytes of memory. -/
abbrev Lane : Type := UInt64

namespace Lane

def toBytes (lanes : List Lane) : List UInt8 :=
  lanes.flatMap fun lane => LittleEndian.encode laneBytes lane.toNat

/-- The lanes that the bytes fill. -/
def ofBytes : List UInt8 → List Lane
  | b₀ :: b₁ :: b₂ :: b₃ :: b₄ :: b₅ :: b₆ :: b₇ :: rest =>
    UInt64.ofNat (LittleEndian.decode [b₀, b₁, b₂, b₃, b₄, b₅, b₆, b₇]) :: ofBytes rest
  | _ => []

/-- Puts a list of lanes into a row, from index `first` on. What would lie
    beyond the end of the row is left out. -/
def overwrite (row : Array Lane) (first : Nat) : List Lane → Array Lane
  | [] => row
  | lane :: rest => overwrite (row.setIfInBounds first lane) (first + 1) rest

@[simp] theorem size_overwrite (row : Array Lane) (first : Nat) (lanes : List Lane) :
    (overwrite row first lanes).size = row.size := by
  induction lanes generalizing row first with
  | nil => rfl
  | cons lane rest ih => simp [overwrite, ih]

theorem toBytes_cons (lane : Lane) (rest : List Lane) :
    toBytes (lane :: rest) = LittleEndian.encode laneBytes lane.toNat ++ toBytes rest := rfl

end Lane

end TransactionalMemory
