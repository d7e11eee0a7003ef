import TransactionalMemory.Proofs.Session.Dooming

/-! # Runs without their read-only transactions

    From a run all that its read-only transactions do can be left out. As fewer
    transactions begin then, the others get other numbers: `Renumbering` keeps
    account of the new ones, and `withoutReaders` gives the operations that are
    left, each with what it has told its caller in the whole run.

    A run gives up no slot if nothing is freed and whoever ends without a commit
    has allocated nothing. -/

namespace TransactionalMemory

namespace Operation

variable {operation : Operation} {h k : Handle}

def doneFor (operation : Operation) (k : Handle) : Operation :=
  match operation with
  | .read _ a length => .read k a length
  | .write _ a bytes => .write k a bytes
  | .alloc _ size memory => .alloc k size memory
  | .free _ a => .free k a
  | .abort _ => .abort k
  | .finish _ => .finish k
  | .abandon _ => .abandon k
  | .begin readOnly => .begin readOnly
  | .collect => .collect

theorem doneFor_self (hop : operation.handle? = some h) : operation.doneFor h = operation := by
  cases operation <;> cases hop <;> rfl

theorem handle?_doneFor (hop : operation.handle? = some h) (k : Handle) :
    (operation.doneFor k).handle? = some k := by
  cases operation <;> cases hop <;> rfl

end Operation

/-! ## New numbers -/

/-- The new numbers of the transactions in the order in which they began; a
    read-only one has none. -/
abbrev Renumbering : Type := List (Option Handle)

namespace Renumbering

variable {names : Renumbering} {h k : Handle}

def number? (names : Renumbering) (h : Handle) : Option Handle := (names[h]?).join

/-- The number of the next read-write transaction. -/
def next (names : Renumbering) : Handle := names.countP Option.isSome

/-- The new numbers after an operation, which may have begun a transaction. -/
def after (names : Renumbering) : Operation → Answer → Renumbering
  | .begin readOnly, .begun (.started _) => names ++ [if readOnly then none else some names.next]
  | _, _ => names

/-- The answer, with the new number of a transaction that was begun. -/
def answer (names : Renumbering) : Answer → Answer
  | .begun (.started h) => .begun (.started ((names.number? h).getD h))
  | answer => answer

/-- The operation under the new number of its transaction, if it is left. -/
def operation? (names : Renumbering) (operation : Operation) : Option Operation :=
  match operation.handle? with
  | some h => (names.number? h).map operation.doneFor
  | none => if operation = .begin true then none else some operation

/-- Only the begin of a transaction changes the numbers, -/
theorem after_of_handle {operation : Operation} (hop : operation.handle? = some h)
    (answer : Answer) : names.after operation answer = names := by
  cases operation <;> cases hop <;> rfl

/-- and only its answer has one. -/
theorem answer_of_handle {operation : Operation} (hop : operation.handle? = some h)
    (s : Session) : names.answer (s.step operation).1 = (s.step operation).1 := by
  cases operation <;> cases hop <;> rfl

/-- New numbers are given out in order, and once. -/
structure Proper (names : Renumbering) : Prop where
  lt_next : ∀ h k, names.number? h = some k → k < names.next
  once : ∀ h h' k, names.number? h = some k → names.number? h' = some k → h = h'

theorem number?_of_length_le (hh : names.length ≤ h) : names.number? h = none := by
  rw [number?, List.getElem?_eq_none hh]
  rfl

/-- The transactions that began before keep their new numbers. -/
theorem number?_append (names : Renumbering) (o : Option Handle) (h : Handle) :
    number? (names ++ [o]) h = if h = names.length then o else names.number? h := by
  unfold number?
  by_cases hlast : h = names.length
  · rw [if_pos hlast, hlast, List.getElem?_concat_length]
    rfl
  rw [if_neg hlast]
  by_cases hlt : h < names.length
  · rw [List.getElem?_append_left hlt]
  · have hle : names.length ≤ h := Nat.le_of_not_lt hlt
    have hbeyond : (names ++ [o]).length ≤ h := by
      rw [List.length_append]
      exact Nat.lt_of_le_of_ne hle (Ne.symm hlast)
    rw [List.getElem?_eq_none hle, List.getElem?_eq_none hbeyond]

theorem next_append (names : Renumbering) (o : Option Handle) :
    next (names ++ [o]) = names.next + if o.isSome then 1 else 0 := by
  simp [next, List.countP_append, List.countP_cons]

/-- A read-only transaction leaves the new numbers as they are. -/
theorem number?_append_none (names : Renumbering) (h : Handle) :
    number? (names ++ [none]) h = names.number? h := by
  rw [number?_append]
  split
  next hlast => exact (number?_of_length_le (Nat.le_of_eq hlast.symm)).symm
  next => rfl

theorem Proper.append_none (hp : names.Proper) : Proper (names ++ [none]) := by
  have hnext : next (names ++ [none]) = names.next := next_append names none
  constructor
  · intro h k hk
    rw [number?_append_none] at hk
    rw [hnext]
    exact hp.lt_next h k hk
  · intro h h' k hk hk'
    rw [number?_append_none] at hk hk'
    exact hp.once h h' k hk hk'

/-- A read-write transaction gets a number that no other one has. -/
theorem Proper.append_next (hp : names.Proper) : Proper (names ++ [some names.next]) := by
  have hnext : next (names ++ [some names.next]) = names.next + 1 := next_append names _
  constructor
  · intro h k hk
    rw [hnext]
    rw [number?_append] at hk
    split at hk
    next =>
      cases hk
      exact Nat.lt_succ_self _
    next => exact Nat.lt_succ_of_lt (hp.lt_next h k hk)
  · intro h h' k hk hk'
    rw [number?_append] at hk hk'
    split at hk <;> split at hk'
    next hlast hlast' => rw [hlast, hlast']
    next =>
      cases hk
      exact absurd (hp.lt_next h' _ hk') (Nat.lt_irrefl _)
    next =>
      cases hk'
      exact absurd (hp.lt_next h _ hk) (Nat.lt_irrefl _)
    next => exact hp.once h h' k hk hk'

end Renumbering

namespace Session

variable {s s' : Session} {h : Handle} {t : Transaction}

/-! ## Runs without the read-only transactions -/

/-- What an operation tells its caller: the answer, and the id of a transaction
    that it has begun. -/
def tells (s : Session) (operation : Operation) : Answer × Option TransactionId :=
  ((s.step operation).1,
    match (s.step operation).1 with
    | .begun (.started h) => ((s.step operation).2.open? h).map Transaction.id
    | _ => none)

/-- Beginning a transaction tells its id. -/
theorem tells_of_begun {operation : Operation}
    (hstep : s.step operation = (.begun (.started h), s')) (ho : s'.open? h = some t) :
    s.tells operation = (.begun (.started h), some t.id) := by
  unfold tells
  rw [hstep]
  dsimp only
  rw [ho]
  rfl

/-- No other operation has an id to tell. -/
theorem tells_of_handle {operation : Operation} (hop : operation.handle? = some h) :
    (s.tells operation).2 = none := by
  cases operation <;> cases hop <;> rfl

/-- What an operation answers whose transaction is not open. -/
def unanswered : Operation → Answer
  | .read .. => .bytes none
  | .write .. | .free .. => .done none
  | .alloc .. => .allocated none
  | .finish _ => .ended none
  | .begin _ | .abort _ | .abandon _ | .collect => .nothing

theorem unanswered_doneFor (operation : Operation) (k : Handle) :
    unanswered (operation.doneFor k) = unanswered operation := by
  cases operation <;> rfl

/-- An operation whose transaction is not open does nothing. -/
theorem step_of_closed {operation : Operation} (hop : operation.handle? = some h)
    (ho : s.open? h = none) : s.step operation = (unanswered operation, s) := by
  cases operation <;> cases hop <;>
    simp [step, unanswered, read, write, alloc, free, access, abort, finish, abandon, ho]

def told (s : Session) : List Operation → List (Answer × Option TransactionId)
  | [] => []
  | operation :: rest => s.tells operation :: (s.step operation).2.told rest

def renumbering (s : Session) (names : Renumbering) : List Operation → Renumbering
  | [] => names
  | operation :: rest =>
    let (answer, s) := s.step operation
    s.renumbering (names.after operation answer) rest

/-- What is left of a run without the read-only transactions: the operations of
    the others and the collections, each with what it tells, under new numbers. -/
def withoutReaders (s : Session) (names : Renumbering) :
    List Operation → List (Operation × Answer × Option TransactionId)
  | [] => []
  | operation :: rest =>
    let names' := names.after operation (s.step operation).1
    let left := (s.step operation).2.withoutReaders names' rest
    match names.operation? operation with
    | none => left
    | some kept => (kept, names'.answer (s.step operation).1, (s.tells operation).2) :: left

/-- Transaction `h` has allocated nothing, if it is open. -/
def Unallocated (s : Session) (h : Handle) : Prop := ∀ t ∈ s.open? h, t.allocated = []

/-- The operation gives up no slot: it does not free a segment, and it does not
    end a transaction without a commit that has allocated one. -/
def KeepsSlots (s : Session) : Operation → Prop
  | .free h a => (s.free h a).1 ≠ some (.ok ())
  | .finish h => (s.finish h).1 = some false → s.Unallocated h
  | .abandon h => s.Unallocated h
  | .begin _ | .read .. | .write .. | .alloc .. | .abort _ | .collect => True

/-- No operation of the run gives up a slot. -/
def KeepsAllSlots (s : Session) : List Operation → Prop
  | [] => True
  | operation :: rest => s.KeepsSlots operation ∧ (s.step operation).2.KeepsAllSlots rest

instance (s : Session) (h : Handle) : Decidable (s.Unallocated h) :=
  inferInstanceAs (Decidable (∀ t ∈ s.open? h, t.allocated = []))

instance (s : Session) : (operation : Operation) → Decidable (s.KeepsSlots operation)
  | .free h a => inferInstanceAs (Decidable ((s.free h a).1 ≠ some (.ok ())))
  | .finish h => inferInstanceAs (Decidable ((s.finish h).1 = some false → s.Unallocated h))
  | .abandon h => inferInstanceAs (Decidable (s.Unallocated h))
  | .begin _ | .read .. | .write .. | .alloc .. | .abort _ | .collect =>
    inferInstanceAs (Decidable True)

instance decidableKeepsAllSlots (s : Session) : (operations : List Operation) →
    Decidable (s.KeepsAllSlots operations)
  | [] => inferInstanceAs (Decidable True)
  | operation :: rest =>
    have := decidableKeepsAllSlots (s.step operation).2 rest
    inferInstanceAs (Decidable (s.KeepsSlots operation ∧ (s.step operation).2.KeepsAllSlots rest))

end Session

end TransactionalMemory
