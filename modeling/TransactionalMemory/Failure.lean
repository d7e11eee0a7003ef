import TransactionalMemory.Address

/-! # Failures

    Why an operation on a region or a transaction did not succeed. Running out
    of memory or of transaction ids leaves a transaction usable; every other
    failure dooms the transaction that met it. Only losing to another
    transaction is worth another attempt. -/

namespace TransactionalMemory

/-- The causes of a failed operation. -/
inductive Failure where
  /-- Another transaction holds the word or the segment at this address. -/
  | conflict (address : Address)
  /-- The transaction was doomed by an earlier operation. -/
  | doomed
  /-- No memory, no free slot, or the memory limit is reached. -/
  | outOfMemory
  /-- The address names no segment that the transaction may use. -/
  | invalidAddress (address : Address)
  /-- The range is empty, not made of whole words, or leaves its segment. -/
  | misaligned (address : Address) (length : Nat)
  /-- The size is not a positive multiple of the alignment. -/
  | invalidLayout (size align : Nat)
  /-- A read-only transaction was asked to change something. -/
  | readOnly
  /-- Every transaction id has been given out. -/
  | idsExhausted
  deriving DecidableEq

namespace Failure

def kind : Failure → String
  | conflict _ => "Conflict"
  | doomed => "Doomed"
  | outOfMemory => "OutOfMemory"
  | invalidAddress _ => "InvalidAddress"
  | misaligned _ _ => "Misaligned"
  | invalidLayout _ _ => "InvalidLayout"
  | readOnly => "ReadOnly"
  | idsExhausted => "IdsExhausted"

/-- The sentence shown to a user. -/
def message : Failure → String
  | conflict a => "conflicting access at " ++ a.describe
  | doomed => "transaction is doomed and must be ended"
  | outOfMemory => "out of memory"
  | invalidAddress a => "invalid address " ++ a.describe
  | misaligned a length =>
      "misaligned access of " ++ Text.decimal length ++ " bytes at " ++ a.describe
  | invalidLayout size align =>
      "invalid layout: size " ++ Text.decimal size ++ " is not a positive multiple of alignment "
        ++ Text.decimal align
  | readOnly => "write, alloc or free issued on a read-only transaction"
  | idsExhausted => "transaction ids exhausted"

def describe (f : Failure) : String :=
  match f with
  | conflict a => Text.record f.kind [("addr", a.describe)]
  | invalidAddress a => Text.applied f.kind a.describe
  | misaligned a length => Text.record f.kind [("addr", a.describe), ("len", Text.decimal length)]
  | invalidLayout size align =>
      Text.record f.kind [("size", Text.decimal size), ("align", Text.decimal align)]
  | _ => f.kind

/-- Whether this failure dooms the transaction that meets it. -/
def isAbort : Failure → Bool
  | outOfMemory | idsExhausted => false
  | _ => true

/-- Whether another attempt in a new transaction may succeed. -/
def isRetryable : Failure → Bool
  | conflict _ | doomed => true
  | _ => false

end Failure

end TransactionalMemory
