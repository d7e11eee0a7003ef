import TransactionalMemory.Region.Basic

/-! # Transactions

    A transaction owns no shared memory. It keeps a log: the words whose
    accessor it became, the words it read while another transaction was the
    accessor, and the slots whose segments it allocated and freed. Ending it
    means going through the log.

    The epoch that a transaction pins when it begins keeps every segment that
    it can reach from being released until it has ended. A failed operation
    dooms it: from then on it can only end without committing. -/

namespace TransactionalMemory

structure WordRef where
  segment : Nat
  word : Nat
  deriving DecidableEq

/-- A read of a word whose accessor was another transaction. -/
structure Observation where
  ref : WordRef
  /-- The commit count of the word at the read. -/
  seq : Nat
  deriving DecidableEq

/-- What kind of transaction this is. -/
inductive Mode where
  /-- It changes nothing and needs no identity. -/
  | readOnly
  /-- It may change the region, under an id of its own. -/
  | readWrite (id : TransactionId)
  deriving DecidableEq

/-- The id of a transaction; all read-only ones share one. -/
def Mode.id : Mode → TransactionId
  | readOnly => .readOnly
  | readWrite id => id

def Mode.isReadOnly : Mode → Bool
  | readOnly => true
  | readWrite _ => false

/-- An open transaction. Its logs hold the latest entry first. -/
structure Transaction where
  mode : Mode
  /-- The epoch it pins. -/
  epoch : Nat
  /-- Whether it can only end without committing. -/
  doomed : Bool := false
  /-- The words whose accessor it became. -/
  touched : List WordRef := []
  /-- The words it read while another transaction was the accessor. -/
  observed : List Observation := []
  /-- The slots of the segments it allocated. -/
  allocated : List Nat := []
  /-- The slots of the segments it freed. -/
  freed : List Nat := []
  deriving DecidableEq

namespace Transaction

def id (t : Transaction) : TransactionId := t.mode.id

def isReadOnly (t : Transaction) : Bool := t.mode.isReadOnly

def doom (t : Transaction) : Transaction := { t with doomed := true }

def describe (t : Transaction) : String :=
  Text.record "Transaction"
    [("id", t.id.describe), ("read_only", Text.truth t.isReadOnly),
     ("doomed", Text.truth t.doomed), ("touched", Text.decimal t.touched.length),
     ("observed", Text.decimal t.observed.length)]

end Transaction

/-! ## Begin -/

namespace Region

/-- Decides what a new transaction is: a read-write one gets the next id. -/
def identify? (r : Region) (readOnly : Bool) : Except Failure (Mode × Region) :=
  if readOnly then .ok (.readOnly, r)
  else
    match r.ids.mint? with
    | none => .error .idsExhausted
    | some (id, ids) => .ok (.readWrite id, { r with ids })

/-- Lets a transaction in: it passes the gate and pins the current epoch. -/
def enter (r : Region) (mode : Mode) : Transaction × Region :=
  ({ mode, epoch := r.collector.epoch },
    { r with gate := r.gate.enter mode.isReadOnly, collector := r.collector.pin })

end Region

end TransactionalMemory
