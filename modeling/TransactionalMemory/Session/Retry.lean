import TransactionalMemory.Session.Basic

/-! # Retrying until a transaction commits

    `atomically` runs a body in a transaction of its own and ends the
    transaction. The body is given the number of the attempt, counted from one,
    and the number of the transaction. An attempt that does not commit, or whose
    body fails in a way worth another attempt, is followed by another one with a
    new transaction; any other failure of the body ends the call with that
    failure. An attempt whose body fails is abandoned.

    Besides its own transaction, the body may work on the session in any way,
    and on a state of its own. -/

namespace TransactionalMemory.Session

/-- A computation on a session and a state of the caller's. -/
abbrev Body (σ α : Type) : Type := StateM (Session × σ) α

/-- Changes the session inside a body. -/
def within {σ α : Type} (change : Session → α × Session) : Body σ α :=
  modifyGet fun (s, own) => let (a, s) := change s; (a, (s, own))

/-- Runs `body` in a transaction until it commits, with at most the given number
    of attempts, the first of which is attempt `k`. The result is `none` if the
    attempts run out, or if a transaction would have to wait at the gate. -/
def attempts {σ α : Type} (readOnly : Bool) (body : Nat → Handle → Body σ (Except Failure α)) :
    (limit k : Nat) → Body σ (Option (Except Failure α))
  | 0, _ => pure none
  | limit + 1, k => do
    match ← within (·.begin readOnly) with
    | .blocked => pure none
    | .refused failure => pure (some (.error failure))
    | .started h =>
      match ← body k h with
      | .ok value =>
        match ← within (·.finish h) with
        | some true => pure (some (.ok value))
        | _ => attempts readOnly body limit (k + 1)
      | .error failure =>
        within fun s => ((), s.abandon h)
        if failure.isRetryable then attempts readOnly body limit (k + 1)
        else pure (some (.error failure))

/-- Runs `body` in a transaction until it commits, with at most `limit` attempts. -/
def atomically {σ α : Type} (readOnly : Bool) (limit : Nat)
    (body : Nat → Handle → Body σ (Except Failure α)) : Body σ (Option (Except Failure α)) :=
  attempts readOnly body limit 1

end TransactionalMemory.Session
