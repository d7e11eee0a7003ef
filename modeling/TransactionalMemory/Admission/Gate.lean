import TransactionalMemory.Settings

/-! # The admission gate

    Every transaction passes the gate when it begins and leaves it when it
    ends. Under optimistic admission the gate is always open. Under exclusive
    admission read-only transactions share it, and a read-write transaction
    passes only when nobody else is inside, and then keeps everybody out. -/

namespace TransactionalMemory

/-- The gate, with who is inside. -/
structure Gate where
  policy : Admission
  /-- Read-only transactions inside, under exclusive admission. -/
  readers : Nat := 0
  /-- Whether a read-write transaction is inside, under exclusive admission. -/
  writer : Bool := false
  deriving DecidableEq

namespace Gate

/-- Whether a transaction may pass now. -/
def admits (g : Gate) (readOnly : Bool) : Bool :=
  match g.policy, readOnly with
  | .optimistic, _ => true
  | .exclusive, true => !g.writer
  | .exclusive, false => !g.writer && g.readers == 0

def enter (g : Gate) (readOnly : Bool) : Gate :=
  match g.policy, readOnly with
  | .optimistic, _ => g
  | .exclusive, true => { g with readers := g.readers + 1 }
  | .exclusive, false => { g with writer := true }

def leave (g : Gate) (readOnly : Bool) : Gate :=
  match g.policy, readOnly with
  | .optimistic, _ => g
  | .exclusive, true => { g with readers := g.readers - 1 }
  | .exclusive, false => { g with writer := false }

@[simp] theorem policy_enter (g : Gate) (readOnly : Bool) :
    (g.enter readOnly).policy = g.policy := by
  unfold enter
  split <;> rfl

@[simp] theorem policy_leave (g : Gate) (readOnly : Bool) :
    (g.leave readOnly).policy = g.policy := by
  unfold leave
  split <;> rfl

end Gate

end TransactionalMemory
