import TransactionalMemory.Admission.Identity

/-! # Word controls

    Every word of a segment has two copies. Its control says which of them is
    valid, whether a transaction has a write pending in the other one, which
    transaction accessed the word first, and how many commits the word has
    seen.

    A control is stored in 128 bits: the accessor in one half (zero for none),
    and in the other the commit count above one bit for the pending write and
    one for the valid copy. The commit count therefore has 62 bits; bits above
    them are lost when a control is stored. On controls whose count fits, `pack`
    and `unpack` are inverse. -/

namespace TransactionalMemory

inductive Copy where
  /-- The copy that is valid in a fresh segment. -/
  | a
  /-- The other copy. -/
  | b
  deriving DecidableEq, Inhabited

def Copy.other : Copy → Copy
  | .a => .b
  | .b => .a

@[simp] theorem Copy.other_ne (c : Copy) : c.other ≠ c := by cases c <;> decide

/-- Number of different commit counts that a stored control can tell apart. -/
def commitCounts : Nat := 1 <<< 62

/-- The state of one word. -/
structure Control where
  /-- The copy that holds the committed value. -/
  valid : Copy := .a
  /-- Whether the accessor has a write pending in the other copy. -/
  written : Bool := false
  /-- The first transaction that accessed the word and has not finished. -/
  accessor : Option TransactionId := none
  /-- Number of commits of the word, modulo `commitCounts` once stored. -/
  seq : Nat := 0
  deriving DecidableEq

namespace Control

/-- The control of a word that nobody has accessed. -/
def untouched : Control := {}

instance : Inhabited Control := ⟨untouched⟩

/-- The copy that is not valid; pending writes go there. -/
def scratch (c : Control) : Copy := c.valid.other

def ownedBy (c : Control) (id : TransactionId) : Bool := c.accessor == some id

/-! ## Transitions -/

/-- The transaction becomes the accessor, without a write. -/
def claimedBy (c : Control) (id : TransactionId) : Control := { c with accessor := some id }

/-- The transaction becomes the accessor, with a write pending. -/
def writtenBy (c : Control) (id : TransactionId) : Control :=
  { c with written := true, accessor := some id }

/-- The pending write becomes the committed value, and the word is free again. -/
def committed (c : Control) : Control where
  valid := c.valid.other
  written := false
  accessor := none
  seq := (c.seq + 1) % commitCounts

/-- The pending write, if any, is given up, and the word is free again. -/
def released (c : Control) : Control := { c with written := false, accessor := none }

/-! ## Stored form -/

/-- A control as it is stored: 128 bits in two halves. -/
structure Packed where
  /-- The number of the accessor, zero for none. -/
  accessor : UInt64 := 0
  /-- The commit count, then the bit of the pending write, then that of the valid copy. -/
  state : UInt64 := 0
  deriving DecidableEq

instance : Inhabited Packed := ⟨{}⟩

/-- The bits of the stored state below the commit count. -/
def flagBits (c : Control) : Nat :=
  (if c.written then 2 else 0) + (match c.valid with | .a => 0 | .b => 1)

/-- Stores a control. -/
def pack (c : Control) : Packed where
  accessor := UInt64.ofNat (c.accessor.elim 0 TransactionId.val)
  state := UInt64.ofNat (c.seq * 4 + c.flagBits)

/-- Reads a stored control. -/
def unpack (p : Packed) : Control where
  valid := if p.state.toNat % 2 = 0 then .a else .b
  written := p.state.toNat / 2 % 2 = 1
  accessor := TransactionId.ofNat? p.accessor.toNat
  seq := p.state.toNat / 4

/-- Reading a stored control gives it back, with its commit count modulo `commitCounts`. -/
theorem unpack_pack (c : Control) : unpack (pack c) = { c with seq := c.seq % commitCounts } := by
  obtain ⟨valid, written, accessor, seq⟩ := c
  have hacc : TransactionId.ofNat?
      (UInt64.ofNat (accessor.elim 0 TransactionId.val)).toNat = accessor := by
    cases accessor with
    | none => rfl
    | some id =>
      rw [Option.elim_some, UInt64.toNat_ofNat_of_lt' id.lt, TransactionId.ofNat?_val]
  have hstate : (pack ⟨valid, written, accessor, seq⟩).state.toNat
      = seq % commitCounts * 4 + flagBits ⟨valid, written, accessor, seq⟩ := by
    simp only [pack, UInt64.toNat_ofNat', commitCounts]
    cases valid <;> cases written <;> simp [flagBits] <;> omega
  simp only [unpack, hstate]
  simp only [pack, hacc]
  cases valid <;> cases written <;> simp [flagBits] <;> omega

/-- Storing what a stored control says gives the same bits. -/
theorem pack_unpack (p : Packed) : pack (unpack p) = p := by
  obtain ⟨accessor, state⟩ := p
  have hs := state.toNat_lt
  have ha := accessor.toNat_lt
  have hacc : (UInt64.ofNat
      ((TransactionId.ofNat? accessor.toNat).elim 0 TransactionId.val)) = accessor := by
    apply UInt64.toNat.inj
    rw [UInt64.toNat_ofNat']
    by_cases h : accessor.toNat = 0
    · simp [TransactionId.ofNat?, h]
    · have hpos : 0 < accessor.toNat := Nat.pos_of_ne_zero h
      simp [TransactionId.ofNat?, hpos, ha, Nat.mod_eq_of_lt]
  have hstate : UInt64.ofNat ((unpack ⟨accessor, state⟩).seq * 4
      + (unpack ⟨accessor, state⟩).flagBits) = state := by
    apply UInt64.toNat.inj
    rw [UInt64.toNat_ofNat']
    simp only [unpack, flagBits]
    by_cases h1 : state.toNat % 2 = 0 <;> by_cases h2 : state.toNat / 2 % 2 = 1 <;>
      simp [h1, h2] <;> omega
  simp only [pack, hstate]
  simp only [unpack, hacc]

end Control

end TransactionalMemory
