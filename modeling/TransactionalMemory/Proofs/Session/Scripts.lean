import TransactionalMemory.Proofs.Session.Readings
import TransactionalMemory.Session.Retry

/-! # Scripts

    A script is a body that does nothing but whole operations, given as data:
    what it does next depends on the answers that it got so far. The operations
    may be its own, or those of other transactions that come in between.

    Running the body of a script is doing its operations. A call of `atomically`
    with scripts is a sequence of attempts, and a failure that it returns was
    returned by the script of one of them. -/

namespace TransactionalMemory

/-- A body as data: its result, or what it does next and how it goes on. -/
inductive Script (α : Type) where
  /-- It returns. -/
  | done (result : Except Failure α)
  /-- It does an operation, and goes on with the answer. -/
  | act (operation : Operation) (next : Answer → Script α)

namespace Script

variable {α σ : Type}

/-- The script as a body; it has no state of its own. -/
def body : Script α → Session.Body σ (Except Failure α)
  | done result => pure result
  | act operation next => do
    let answer ← Session.within (·.step operation)
    (next answer).body

def operations : Script α → Session → List Operation
  | done _, _ => []
  | act operation next, s =>
    operation :: (next (s.step operation).1).operations (s.step operation).2

def result : Script α → Session → Except Failure α
  | done result, _ => result
  | act operation next, s => (next (s.step operation).1).result (s.step operation).2

/-- The body of a script does the operations of the script. -/
theorem body_eq (script : Script α) (s : Session) (own : σ) :
    script.body (s, own) = (script.result s, (s.run (script.operations s)).2, own) := by
  induction script generalizing s with
  | done result => rfl
  | act operation next ih => exact ih (s.step operation).1 (s.step operation).2

def after (script : Script α) (s : Session) : Session := (s.run (script.operations s)).2

def ending (script : Script α) (h : Handle) (s : Session) : Operation :=
  match script.result s with
  | .ok _ => .finish h
  | .error _ => .abandon h

end Script

/-- An attempt of a call, right after its transaction has begun. -/
structure Attempt where
  number : Nat
  /-- Its transaction. -/
  handle : Handle
  /-- The history so far. -/
  hist : History
  session : Session

namespace Attempt

variable {α σ : Type}

/-- The attempt that begins in a session. -/
def start (number : Nat) (handle : Handle) (hist : History) (s : Session) : Attempt :=
  ⟨number, handle, s.events (.begin false) ++ hist, (s.begin false).2⟩

def histAfter (x : Attempt) (script : Script α) : History :=
  (script.after x.session).events (script.ending x.handle x.session) ++
    x.session.record x.hist (script.operations x.session)

def sessionAfter (x : Attempt) (script : Script α) : Session :=
  ((script.after x.session).step (script.ending x.handle x.session)).2

def Retried (x : Attempt) (script : Script α) : Prop :=
  match script.result x.session with
  | .ok _ => ((script.after x.session).finish x.handle).1 ≠ some true
  | .error failure => failure.isRetryable = true

/-- The attempts of a call that starts in a session. -/
inductive Of (script : Nat → Handle → Script α) :
    (limit k : Nat) → History → Session → Attempt → Prop where
  | first {limit k : Nat} {hist : History} {s : Session} {h : Handle}
      (begins : (s.begin false).1 = .started h) :
      Of script (limit + 1) k hist s (.start k h hist s)
  /-- One that follows the first one. -/
  | later {limit k : Nat} {hist : History} {s : Session} {h : Handle} {y : Attempt}
      (begins : (s.begin false).1 = .started h)
      (retried : (start k h hist s).Retried (script k h))
      (rest : Of script limit (k + 1) ((start k h hist s).histAfter (script k h))
        ((start k h hist s).sessionAfter (script k h)) y) :
      Of script (limit + 1) k hist s y

/-- The history of the attempts of a call goes on from the one of the session. -/
theorem Of.tracks {script : Nat → Handle → Script α} {limit k : Nat} {hist : History}
    {s : Session} {x : Attempt} (hx : Of script limit k hist s x)
    (htracks : Session.Tracks hist s) : Session.Tracks x.hist x.session := by
  induction hx with
  | first begins => exact htracks.step (.begin false)
  | @later limit k hist s h y begins retried rest ih =>
    have hbegun := htracks.step (.begin false)
    exact ih ((hbegun.run _).step _)

/-- A call that may make one attempt makes the first one. -/
theorem Of.eq_start {script : Nat → Handle → Script α} {k : Nat} {hist : History} {s : Session}
    {x : Attempt} (hx : Of script 1 k hist s x) :
    ∃ h, (s.begin false).1 = .started h ∧ x = .start k h hist s := by
  cases hx with
  | @first _ _ _ _ h begins => exact ⟨h, begins, rfl⟩
  | later begins retried rest => cases rest

/-- An attempt begins with its transaction open and able to write. -/
theorem Of.isOpen {script : Nat → Handle → Script α} {limit k : Nat} {hist : History}
    {s : Session} {x : Attempt} (hx : Of script limit k hist s x) :
    ∃ t, x.session.open? x.handle = some t ∧ t.isReadOnly = false := by
  induction hx with
  | first begins => exact Session.begin_started begins
  | later begins retried rest ih => exact ih

end Attempt

namespace Session

variable {α σ : Type}

/-- The first attempt of a call, and what follows it. -/
theorem attempts_succ (readOnly : Bool) (body : Nat → Handle → Body σ (Except Failure α))
    (limit k : Nat) (s : Session) (own : σ) :
    attempts readOnly body (limit + 1) k (s, own) =
      match s.begin readOnly with
      | (.blocked, s) => (none, (s, own))
      | (.refused failure, s) => (some (.error failure), (s, own))
      | (.started h, s) =>
        match body k h (s, own) with
        | (.ok value, (s, own)) =>
          if (s.finish h).1 = some true then (some (.ok value), ((s.finish h).2, own))
          else attempts readOnly body limit (k + 1) ((s.finish h).2, own)
        | (.error failure, (s, own)) =>
          if failure.isRetryable then attempts readOnly body limit (k + 1) (s.abandon h, own)
          else (some (.error failure), (s.abandon h, own)) := by
  rcases hbegin : s.begin readOnly with ⟨h | _ | failure, s₁⟩
  · simp only [attempts, within, bind, StateT.bind, modifyGet, MonadStateOf.modifyGet,
      StateT.modifyGet, hbegin, pure]
    rcases body k h (s₁, own) with ⟨failure | value, s₂, own₂⟩
    · simp only
      split <;> rfl
    · simp only [StateT.bind, StateT.modifyGet]
      rcases s₂.finish h with ⟨_ | _ | _, s₃⟩ <;> rfl
  · simp only [attempts, within, bind, StateT.bind, modifyGet, MonadStateOf.modifyGet,
      StateT.modifyGet, hbegin, pure]
    rfl
  · simp only [attempts, within, bind, StateT.bind, modifyGet, MonadStateOf.modifyGet,
      StateT.modifyGet, hbegin, pure]
    rfl

/-- A failure that a call returns is one that an attempt has returned. -/
theorem exists_attempt_of_error {script : Nat → Handle → Script α} {limit k : Nat}
    (hist : History) {s : Session} {own : σ} {failure : Failure}
    (h : (attempts false (fun k h => (script k h).body) limit k (s, own)).1
      = some (.error failure)) :
    failure = .idsExhausted ∨ ∃ x, Attempt.Of script limit k hist s x ∧
      (script x.number x.handle).result x.session = .error failure := by
  induction limit generalizing k hist s with
  | zero => cases h
  | succ limit ih =>
    rw [attempts_succ] at h
    rcases hbegin : s.begin false with ⟨handle | _ | cause, s₁⟩
    · have hbegins : (s.begin false).1 = .started handle := by rw [hbegin]
      have hsession : (Attempt.start k handle hist s).session = s₁ := by
        rw [Attempt.start, hbegin]
      simp only [hbegin, Script.body_eq] at h
      rcases hresult : (script k handle).result s₁ with cause | value
      · simp only [hresult] at h
        split at h
        next hretry =>
          -- The failure is retried, so the call goes on after the attempt is abandoned.
          have hretried : (Attempt.start k handle hist s).Retried (script k handle) := by
            rw [Attempt.Retried, hsession, hresult]
            exact hretry
          have hafter : (Attempt.start k handle hist s).sessionAfter (script k handle)
              = Session.abandon (s₁.run ((script k handle).operations s₁)).2 handle := by
            rw [Attempt.sessionAfter, hsession, Script.ending, hresult]
            rfl
          rw [← hafter] at h
          exact (ih _ h).imp_right fun ⟨x, hx, hxresult⟩ =>
            ⟨x, .later hbegins hretried hx, hxresult⟩
        next =>
          cases h
          exact .inr ⟨_, .first hbegins, by rw [hsession]; exact hresult⟩
      · simp only [hresult] at h
        split at h
        next => cases h
        next hne =>
          -- The commit was refused, and the call goes on as well.
          have hretried : (Attempt.start k handle hist s).Retried (script k handle) := by
            rw [Attempt.Retried, hsession, hresult]
            exact hne
          have hafter : (Attempt.start k handle hist s).sessionAfter (script k handle)
              = (Session.finish (s₁.run ((script k handle).operations s₁)).2 handle).2 := by
            rw [Attempt.sessionAfter, hsession, Script.ending, hresult]
            rfl
          rw [← hafter] at h
          exact (ih _ h).imp_right fun ⟨x, hx, hxresult⟩ =>
            ⟨x, .later hbegins hretried hx, hxresult⟩
    · simp only [hbegin] at h
      cases h
    · -- The transaction was refused: this can only be for want of an id.
      simp only [hbegin] at h
      cases h
      exact .inl (begin_refused (by rw [hbegin] : (s.begin false).1 = .refused failure))

end Session

end TransactionalMemory
