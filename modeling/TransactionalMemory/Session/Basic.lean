import TransactionalMemory.Transaction.Finish

/-! # Sessions

    A session is a region with the transactions begun on it. Transactions are
    numbered in the order in which they begin, and keep their number after they
    have ended. An operation names a transaction by its number and does nothing
    if that transaction is not open.

    Operations are whole: one ends before the next begins. A transaction that
    would have to wait at the gate is not begun. -/

namespace TransactionalMemory

/-- The number of a transaction in a session. -/
abbrev Handle : Type := Nat

/-- A region with the transactions begun on it. -/
structure Session where
  region : Region
  /-- The transactions by their number; `none` once ended. -/
  transactions : Array (Option Transaction) := #[]

/-- What comes of beginning a transaction. -/
inductive Begun where
  /-- The transaction is open. -/
  | started (handle : Handle)
  /-- The transaction would have to wait at the gate, and was not begun. -/
  | blocked
  /-- The region refused. -/
  | refused (failure : Failure)
  deriving DecidableEq

namespace Session

/-- A session on a new region, if there is `memory` for its permanent segment. -/
def create (settings : Settings) (memory : Bool := true) : Except Failure Session :=
  (Region.create settings memory).map fun region => { region }

def open? (s : Session) (h : Handle) : Option Transaction := (s.transactions[h]?).join

/-- The numbers of the open transactions, in the order in which they began. -/
def openHandles (s : Session) : List Handle :=
  (List.range s.transactions.size).filter fun h => (s.open? h).isSome

/-- Takes note that an identified transaction passes the gate. -/
def enter (s : Session) (mode : Mode) : Handle × Session :=
  let (t, region) := s.region.enter mode
  (s.transactions.size, { region, transactions := s.transactions.push (some t) })

/-- Begins a transaction, unless it would have to wait. -/
def begin (s : Session) (readOnly : Bool) : Begun × Session :=
  if s.region.gate.admits readOnly then
    match s.region.identify? readOnly with
    | .error failure => (.refused failure, s)
    | .ok (mode, region) =>
      let (h, s) := enter { s with region } mode
      (.started h, s)
  else (.blocked, s)

/-- Runs an operation of an open transaction. -/
def access {α : Type} (s : Session) (h : Handle)
    (operation : Transaction → Region → Outcome α) : Option (Except Failure α) × Session :=
  match s.open? h with
  | none => (none, s)
  | some t =>
    let outcome := operation t s.region
    (some outcome.value,
      { region := outcome.region
        transactions := s.transactions.setIfInBounds h (some outcome.transaction) })

def read (s : Session) (h : Handle) (a : Address) (length : Nat) :
    Option (Except Failure (List UInt8)) × Session :=
  s.access h fun t r => t.read r a length

def write (s : Session) (h : Handle) (a : Address) (bytes : List UInt8) :
    Option (Except Failure Unit) × Session :=
  s.access h fun t r => t.write r a bytes

/-- Allocates a segment, if there is `memory` for its buffers. -/
def alloc (s : Session) (h : Handle) (size : Nat) (memory : Bool) :
    Option (Except Failure Address) × Session :=
  s.access h fun t r => t.alloc r size memory

def free (s : Session) (h : Handle) (a : Address) : Option (Except Failure Unit) × Session :=
  s.access h fun t r => t.free r a

def abort (s : Session) (h : Handle) : Session :=
  match s.open? h with
  | none => s
  | some t => { s with transactions := s.transactions.setIfInBounds h (some t.abort) }

/-- Ends a transaction, and returns whether it committed. -/
def finish (s : Session) (h : Handle) : Option Bool × Session :=
  match s.open? h with
  | none => (none, s)
  | some t =>
    let (committed, region) := t.finish s.region
    (some committed, { region, transactions := s.transactions.setIfInBounds h none })

/-- Ends a transaction without committing it. -/
def abandon (s : Session) (h : Handle) : Session :=
  match s.open? h with
  | none => s
  | some t =>
    { region := t.abandon s.region, transactions := s.transactions.setIfInBounds h none }

/-- Abandons every open transaction, in the order in which they began. -/
def abandonAll (s : Session) : Session := s.openHandles.foldl abandon s

/-- Releases what can be released, and returns how many segments that were. -/
def collect (s : Session) : Nat × Session :=
  let (released, region) := s.region.collect
  (released, { s with region })

/-! ## Who is open -/

theorem open?_eq_none_of_size_le (s : Session) {h : Handle} (hs : s.transactions.size ≤ h) :
    s.open? h = none := by
  simp [open?, Array.getElem?_eq_none hs]

/-- A transaction that passes the gate is open from then on. -/
theorem open?_enter_self (s : Session) (mode : Mode) :
    (s.enter mode).2.open? (s.enter mode).1 = some (s.region.enter mode).1 := by
  simp [open?, enter]

theorem open?_enter_ne (s : Session) (mode : Mode) {h : Handle} (hs : h ≠ s.transactions.size) :
    (s.enter mode).2.open? h = s.open? h := by
  simp [open?, enter, Array.getElem?_push, hs]

/-- An operation of one transaction leaves every other one as it was. -/
theorem open?_access_ne {α : Type} (s : Session) {h k : Handle}
    (operation : Transaction → Region → Outcome α) (hk : h ≠ k) :
    (s.access h operation).2.open? k = s.open? k := by
  unfold access
  split
  next => rfl
  next => simp [open?, Array.getElem?_setIfInBounds_ne hk]

/-- Abandoning one transaction leaves every other one as it was. -/
theorem open?_abandon_ne (s : Session) {h k : Handle} (hk : h ≠ k) :
    (s.abandon h).open? k = s.open? k := by
  unfold abandon
  split
  next => rfl
  next => simp [open?, Array.getElem?_setIfInBounds_ne hk]

/-- Ending one transaction leaves every other one as it was. -/
theorem open?_finish_ne (s : Session) {h k : Handle} (hk : h ≠ k) :
    (s.finish h).2.open? k = s.open? k := by
  unfold finish
  split
  next => rfl
  next => simp [open?, Array.getElem?_setIfInBounds_ne hk]

/-- A transaction that was ended is not open. -/
theorem open?_finish_self (s : Session) (h : Handle) : (s.finish h).2.open? h = none := by
  unfold finish
  split
  next hnone => exact hnone
  next =>
    simp only [open?, Array.getElem?_setIfInBounds_self]
    split <;> rfl

/-- A transaction that was abandoned is not open. -/
theorem open?_abandon_self (s : Session) (h : Handle) : (s.abandon h).open? h = none := by
  unfold abandon
  split
  next hnone => exact hnone
  next =>
    simp only [open?, Array.getElem?_setIfInBounds_self]
    split <;> rfl

end Session

end TransactionalMemory
