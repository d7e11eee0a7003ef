import TransactionalMemory.Text.Record

/-! # Transaction ids

    Every read-write transaction has an id of its own: a positive 64-bit
    number, given out in ascending order and never twice. The largest one is
    not given out: it stands for all read-only transactions, which need no
    identity because they never claim a word. Zero is no id, so a stored zero
    can mean that nobody is there. -/

namespace TransactionalMemory

structure TransactionId where
  val : Nat
  pos : 0 < val
  lt : val < UInt64.size
  deriving DecidableEq

namespace TransactionId

/-- The id with the given number, unless it is zero or needs more than 64 bits. -/
def ofNat? (n : Nat) : Option TransactionId :=
  if h : 0 < n ∧ n < UInt64.size then some ⟨n, h.1, h.2⟩ else none

/-- The id that all read-only transactions share. -/
def readOnly : TransactionId := ⟨UInt64.size - 1, by decide, by decide⟩

def describe (id : TransactionId) : String := Text.applied "TxId" (Text.decimal id.val)

@[simp] theorem ofNat?_val (id : TransactionId) : ofNat? id.val = some id := by
  rw [ofNat?, dif_pos ⟨id.pos, id.lt⟩]

end TransactionId

/-- The ids that have been given out: the numbers from one to `issued`. -/
structure IdSource where
  /-- How many ids have been given out. -/
  issued : Nat := 0
  deriving DecidableEq

/-- Gives out the next id, unless only the one of the read-only transactions is left. -/
def IdSource.mint? (s : IdSource) : Option (TransactionId × IdSource) :=
  if h : s.issued + 1 < TransactionId.readOnly.val then
    some (⟨s.issued + 1, by omega, by have := TransactionId.readOnly.lt; omega⟩, ⟨s.issued + 1⟩)
  else none

end TransactionalMemory
