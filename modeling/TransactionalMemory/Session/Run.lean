import TransactionalMemory.Session.Basic

/-! # Runs of a session

    The operations of a session as data: a run is a list of operations, done
    one after the other from a newly created region.

    The buffers of a segment come from outside of the region, and there may be no
    memory for them. So an allocation tells whether there is, and a run may have
    memory for some of its allocations and none for others. -/

namespace TransactionalMemory

inductive Operation where
  | begin (readOnly : Bool)
  | read (h : Handle) (a : Address) (length : Nat)
  | write (h : Handle) (a : Address) (bytes : List UInt8)
  /-- Allocate a segment, with `memory` for its buffers or without. -/
  | alloc (h : Handle) (size : Nat) (memory : Bool)
  | free (h : Handle) (a : Address)
  /-- Give up on a transaction. -/
  | abort (h : Handle)
  | finish (h : Handle)
  /-- End a transaction without committing it. -/
  | abandon (h : Handle)
  | collect
  deriving DecidableEq

inductive Answer where
  | begun (outcome : Begun)
  | bytes (value : Option (Except Failure (List UInt8)))
  /-- Whether a write or a free succeeded. -/
  | done (value : Option (Except Failure Unit))
  /-- The address of a new segment. -/
  | allocated (value : Option (Except Failure Address))
  | ended (committed : Option Bool)
  /-- How many segments were released. -/
  | released (count : Nat)
  | nothing

namespace Session

def step (s : Session) : Operation → Answer × Session
  | .begin readOnly => let (outcome, s) := s.begin readOnly; (.begun outcome, s)
  | .read h a length => let (value, s) := s.read h a length; (.bytes value, s)
  | .write h a bytes => let (value, s) := s.write h a bytes; (.done value, s)
  | .alloc h size memory => let (value, s) := s.alloc h size memory; (.allocated value, s)
  | .free h a => let (value, s) := s.free h a; (.done value, s)
  | .abort h => (.nothing, s.abort h)
  | .finish h => let (committed, s) := s.finish h; (.ended committed, s)
  | .abandon h => (.nothing, s.abandon h)
  | .collect => let (count, s) := s.collect; (.released count, s)

def run (s : Session) : List Operation → List Answer × Session
  | [] => ([], s)
  | operation :: rest =>
    let (answer, s) := s.step operation
    let (answers, s) := s.run rest
    (answer :: answers, s)

/-- A run can be cut anywhere. -/
theorem run_append (s : Session) (first second : List Operation) :
    s.run (first ++ second) =
      let (answers, middle) := s.run first
      let (answers', last) := middle.run second
      (answers ++ answers', last) := by
  induction first generalizing s with
  | nil => rfl
  | cons operation rest ih => simp [run, ih]

/-- A run can be cut before and after any of its operations. -/
theorem run_cut (s : Session) (before : List Operation) (operation : Operation)
    (after : List Operation) :
    (s.run (before ++ operation :: after)).2 =
      (((s.run before).2.step operation).2.run after).2 := by
  rw [run_append]
  rfl

end Session

end TransactionalMemory
