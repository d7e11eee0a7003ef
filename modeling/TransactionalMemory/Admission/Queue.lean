import TransactionalMemory.Session.Basic

/-! # Waiting at the gate

    A transaction that cannot pass the gate waits in a queue. It has its id
    already: ids are given out on arrival. Nobody overtakes: whoever arrives
    while others wait goes to the end of the queue, and whenever somebody has
    left, the queue is let in from its front for as long as the gate admits the
    first one. So readers that wait behind one another are let in together, and
    a reader that arrives while a writer waits is let in after that writer. -/

namespace TransactionalMemory

/-- A transaction that has arrived and waits. -/
structure Waiting where
  /-- Its number in the order of arrival. -/
  arrival : Nat
  /-- Whether it is read-only, or its id. -/
  mode : Mode
  deriving DecidableEq

/-- A transaction that has been let in. -/
structure Admitted where
  /-- Its number in the order of arrival. -/
  arrival : Nat
  /-- Its number in the session. -/
  handle : Handle
  /-- Whether it is read-only, or its id. -/
  mode : Mode
  deriving DecidableEq

/-- A session with the transactions that wait at its gate. -/
structure Lobby where
  session : Session
  /-- Who waits, the first in front. -/
  queue : List Waiting := []
  /-- How many transactions have arrived. -/
  arrivals : Nat := 0

namespace Lobby

/-- Lets the queue in from its front for as long as the gate admits the first one. -/
def letIn (s : Session) : List Waiting → List Admitted × Session × List Waiting
  | [] => ([], s, [])
  | first :: rest =>
    if s.region.gate.admits first.mode.isReadOnly then
      let (h, s) := s.enter first.mode
      let (others, s, waiting) := letIn s rest
      (⟨first.arrival, h, first.mode⟩ :: others, s, waiting)
    else ([], s, first :: rest)

/-- Lets in whoever can be let in. -/
def settle (l : Lobby) : List Admitted × Lobby :=
  let (admitted, session, queue) := letIn l.session l.queue
  (admitted, { l with session, queue })

def arrive (l : Lobby) (readOnly : Bool) : Except Failure (List Admitted × Lobby) :=
  match l.session.region.identify? readOnly with
  | .error failure => .error failure
  | .ok (mode, region) =>
    .ok (settle
      { session := { l.session with region }
        queue := l.queue ++ [⟨l.arrivals, mode⟩]
        arrivals := l.arrivals + 1 })

def finish (l : Lobby) (h : Handle) : Option Bool × List Admitted × Lobby :=
  let (committed, session) := l.session.finish h
  (committed, settle { l with session })

/-- Ends a transaction without committing it, and lets in whoever can be let in then. -/
def abandon (l : Lobby) (h : Handle) : List Admitted × Lobby :=
  settle { l with session := l.session.abandon h }

/-- Abandons all transactions that are open, and lets in whoever can be let in
    after each of them. -/
def abandonOpen (l : Lobby) : Lobby :=
  l.session.openHandles.foldl (fun l h => (l.abandon h).2) l

/-- Abandons all open transactions again and again. Every round lets in at least
    one of those who wait, so one round more than there are waiting is enough. -/
def drain (l : Lobby) : Lobby :=
  (List.range (l.queue.length + 1)).foldl (fun l _ => l.abandonOpen) l

end Lobby

end TransactionalMemory
