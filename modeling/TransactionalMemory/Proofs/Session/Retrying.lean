import TransactionalMemory.Proofs.Session.Contents
import TransactionalMemory.Proofs.Session.Logs
import TransactionalMemory.Proofs.Session.Scripts

/-! # One commit, or none

    A call of `atomically` is a sequence of attempts, each of which begins a
    transaction, lets the body do operations, and ends the transaction. The body
    is any computation on the session that can be told as operations, those of
    its own transaction and those of other ones; only the end of its own
    transaction is not up to it.

    The idea of this file is to write the attempts down as a list, and to read
    off the list what the call comes to:

    1. every attempt ends the transaction that it has begun, so the history says
       for each of them whether it has committed;
    2. only the last attempt can have committed, and it has if and only if the
       call returns a value;
    3. a transaction ends once, so whoever else commits during the call is not
       one of the attempts. -/

namespace TransactionalMemory

/-- One attempt of a call. -/
structure Trial (α : Type) where
  /-- Whether its transaction is to be read-only. -/
  readOnly : Bool
  /-- The session in which it begins. -/
  before : Session
  /-- Its transaction. -/
  handle : Handle
  /-- What the body does. -/
  work : List Operation
  /-- What the body returns. -/
  result : Except Failure α

namespace Trial

variable {α : Type}

/-- The session right after the transaction has begun. -/
def opened (x : Trial α) : Session := (x.before.begin x.readOnly).2

/-- The session right before the transaction ends. -/
def worked (x : Trial α) : Session := (x.opened.run x.work).2

def ending (x : Trial α) : Operation :=
  match x.result with
  | .ok _ => .finish x.handle
  | .error _ => .abandon x.handle

def after (x : Trial α) : Session := (x.worked.step x.ending).2

def operations (x : Trial α) : List Operation := .begin x.readOnly :: (x.work ++ [x.ending])

/-- The transaction has committed, or not, as the history tells. -/
def Ended (x : Trial α) (committed : Bool) : Prop :=
  x.worked.events x.ending = [.ended x.handle committed]

/-- The body has failed in a way worth another attempt, or has returned a value
    and the commit was refused. -/
def Retried (x : Trial α) : Prop :=
  match x.result with
  | .ok _ => (x.worked.finish x.handle).1 = some false
  | .error failure => failure.isRetryable = true

instance (x : Trial α) : Decidable x.Retried :=
  match hresult : x.result with
  | .ok _ => decidable_of_iff ((x.worked.finish x.handle).1 = some false)
      (by rw [Retried, hresult])
  | .error failure => decidable_of_iff (failure.isRetryable = true) (by rw [Retried, hresult])

/-- The body leaves the end of its own transaction to the call. -/
def KeepsOpen (x : Trial α) : Prop := .finish x.handle ∉ x.work ∧ .abandon x.handle ∉ x.work

instance (x : Trial α) : Decidable x.KeepsOpen :=
  inferInstanceAs (Decidable (.finish x.handle ∉ x.work ∧ .abandon x.handle ∉ x.work))

/-- What the transaction has written, allocated and freed, as its operations tell. -/
def change (x : Trial α) : Change where
  written ref := (x.opened.record [] x.work).lastWrite x.handle ref
  allocated := x.opened.logged (·.allocatedBy x.handle) [] x.work
  inside := x.worked.region.holding?
  freed := x.opened.logged (·.freedBy x.handle) [] x.work

/-- The session that the operations of an attempt lead to. -/
theorem run_operations (x : Trial α) : (x.before.run x.operations).2 = x.after := by
  show (x.opened.run (x.work ++ [x.ending])).2 = x.after
  rw [Session.run_append]
  rfl

end Trial

namespace Session

variable {α σ : Type}

/-- Attempt `k` of a call, with a transaction that has begun. What the body does is
    given as operations. -/
def trial (readOnly : Bool) (body : Nat → Handle → Body σ (Except Failure α))
    (does : Nat → Handle → Session × σ → List Operation) (k : Nat) (h : Handle) (s : Session)
    (own : σ) : Trial α where
  readOnly := readOnly
  before := s
  handle := h
  work := does k h ((s.begin readOnly).2, own)
  result := (body k h ((s.begin readOnly).2, own)).1

/-- The attempts of a call, the first of which is attempt `k`. -/
def trials (readOnly : Bool) (body : Nat → Handle → Body σ (Except Failure α))
    (does : Nat → Handle → Session × σ → List Operation) :
    (limit k : Nat) → Session × σ → List (Trial α)
  | 0, _, _ => []
  | limit + 1, k, (s, own) =>
    match (s.begin readOnly).1 with
    | .started h =>
      let x := trial readOnly body does k h s own
      x :: if x.Retried then
        trials readOnly body does limit (k + 1) (x.after, (body k h (x.opened, own)).2.2) else []
    | .blocked | .refused _ => []

/-- What the body does is told by operations. -/
def Does (body : Nat → Handle → Body σ (Except Failure α))
    (does : Nat → Handle → Session × σ → List Operation) : Prop :=
  ∀ k h state, (body k h state).2.1 = (state.1.run (does k h state)).2

/-- What a script does is told by its operations. -/
theorem does_script (script : Nat → Handle → Script α) :
    Does (fun k h => ((script k h).body : Body σ (Except Failure α)))
      fun k h state => (script k h).operations state.1 :=
  fun k h state => congrArg (fun outcome => outcome.2.1) ((script k h).body_eq state.1 state.2)

variable {orderly : Prop} {s s' : Session} {h k : Handle} {t u : Transaction}
  {hist events : History} {readOnly : Bool}

/-! ## One attempt -/

/-- Operations of a transaction do not end it. -/
theorem open_access {α : Type} (operation : Transaction → Region → Outcome α)
    (ho : s.open? h = some t) : ∃ t', (s.access k operation).2.open? h = some t' := by
  by_cases hk : k = h
  · subst hk
    rw [access_of_open _ ho]
    exact ⟨_, open?_put_self ho⟩
  · exact ⟨t, (s.open?_access_ne operation hk).trans ho⟩

/-- A transaction stays open until it is ended. -/
theorem open_step {operation : Operation} (ho : s.open? h = some t)
    (hfinish : operation ≠ .finish h) (habandon : operation ≠ .abandon h) :
    ∃ t', (s.step operation).2.open? h = some t' := by
  cases operation with
  | begin readOnly =>
    change ∃ t', (s.begin readOnly).2.open? h = some t'
    rcases s.begin_cases readOnly with hsame | ⟨u, hbegins⟩
    · rw [hsame]
      exact ⟨t, ho⟩
    · exact ⟨t, hbegins.after ho⟩
  | read k a length => exact open_access (fun t r => t.read r a length) ho
  | write k a bytes => exact open_access (fun t r => t.write r a bytes) ho
  | alloc k size memory => exact open_access (fun t r => t.alloc r size memory) ho
  | free k a => exact open_access (fun t r => t.free r a) ho
  | abort k =>
    change ∃ t', (s.abort k).open? h = some t'
    rcases s.abort_cases k with hsame | ⟨u, hu, hput⟩
    · rw [hsame]
      exact ⟨t, ho⟩
    · rw [hput]
      by_cases hk : h = k
      · subst hk
        exact ⟨_, open?_put_self hu⟩
      · exact ⟨t, (open?_put_ne hk).trans ho⟩
  | finish k =>
    have hk : k ≠ h := fun heq => hfinish (congrArg _ heq)
    exact ⟨t, (s.open?_finish_ne hk).trans ho⟩
  | abandon k =>
    have hk : k ≠ h := fun heq => habandon (congrArg _ heq)
    exact ⟨t, (s.open?_abandon_ne hk).trans ho⟩
  | collect => exact ⟨t, ho⟩

theorem open_run {operations : List Operation} (ho : s.open? h = some t)
    (hfinish : .finish h ∉ operations) (habandon : .abandon h ∉ operations) :
    ∃ t', (s.run operations).2.open? h = some t' := by
  induction operations generalizing s t with
  | nil => exact ⟨t, ho⟩
  | cons operation rest ih =>
    rw [List.mem_cons, not_or] at hfinish habandon
    obtain ⟨t', ho'⟩ := open_step ho (Ne.symm hfinish.1) (Ne.symm habandon.1)
    exact ih ho' hfinish.2 habandon.2

/-- Ids are given out in ascending order. -/
theorem issued_effect (e : Effect orderly s events s') :
    s.region.ids.issued ≤ s'.region.ids.issued := by
  cases e with
  | began identified =>
    rcases (begins_enter identified).identified with ⟨-, hids⟩ | ⟨_, -, -, hissued, -⟩
    · exact Nat.le_of_eq (congrArg _ hids.symm)
    · rw [hissued]
      exact Nat.le_succ _
  | accessed isOpen readWrite found step =>
    obtain ⟨_, _, _, _, hbecomes, _⟩ := step.inv
    exact Nat.le_of_eq (congrArg _ hbecomes.toSameButWords.ids_eq.symm)
  | doomed isOpen => exact Nat.le_refl _
  | allocated isOpen readWrite whole granted =>
    exact Nat.le_of_eq (congrArg _ (Region.grows_of_allocate? granted).ids_eq.symm)
  | missed fails =>
    obtain ⟨table, -, rfl⟩ := fails.inv
    exact Nat.le_refl _
  | freed isOpen readWrite live removable => exact Nat.le_refl _
  | @ended h t committed isOpen valid gives =>
    exact Nat.le_of_eq (congrArg _ (t.settles_conclusion s.region committed).ids_eq.symm)
  | collected => exact Nat.le_of_eq (congrArg _ s.region.drops_collect.ids_eq.symm)

theorem issued_run (hs : s.Steady) (operations : List Operation) :
    s.region.ids.issued ≤ (s.run operations).2.region.ids.issued := by
  have heffects : Effects False s _ _ := effects_record hs operations nofun
  exact heffects.keep (P := fun s' => s.region.ids.issued ≤ s'.region.ids.issued)
    (fun e hle => Nat.le_trans hle (issued_effect e)) (Nat.le_refl _)

/-! ## The attempts of a call -/

/-- An attempt whose transaction has begun, and is ended by the call. -/
structure Runs (readOnly : Bool) (x : Trial α) : Prop where
  asked : x.readOnly = readOnly
  begins : (x.before.begin readOnly).1 = .started x.handle
  keepsOpen : x.KeepsOpen

namespace Runs

variable {x : Trial α}

/-- The transaction of an attempt, right after it has begun. -/
theorem begun (hx : Runs readOnly x) :
    x.handle = x.before.transactions.size ∧
      ∃ t, Begins x.before x.opened t ∧ t.isReadOnly = readOnly := by
  rw [Trial.opened, hx.asked]
  exact begins_of_started hx.begins

theorem open_opened (hx : Runs readOnly x) :
    ∃ t, x.opened.open? x.handle = some t ∧ t.isReadOnly = readOnly := by
  obtain ⟨hhandle, t, hbegins, hmode⟩ := hx.begun
  rw [hhandle]
  exact ⟨t, hbegins.self, hmode⟩

/-- It is open until the attempt ends. -/
theorem open_worked (hx : Runs readOnly x) : ∃ t, x.worked.open? x.handle = some t := by
  obtain ⟨t, ho, -⟩ := hx.open_opened
  exact open_run ho hx.keepsOpen.1 hx.keepsOpen.2

/-- So the history tells how it ends: -/
theorem ended_of_ok (hx : Runs readOnly x) {value : α} (hresult : x.result = .ok value) :
    ∃ committed, (x.worked.finish x.handle).1 = some committed ∧ x.Ended committed := by
  obtain ⟨t, ho⟩ := hx.open_worked
  refine ⟨_, congrArg Prod.fst (finish_of_open ho), ?_⟩
  simp only [Trial.Ended, Trial.ending, hresult, events, finish_of_open ho]

/-- without a commit, if the body fails. -/
theorem ended_of_error (hx : Runs readOnly x) {failure : Failure}
    (hresult : x.result = .error failure) : x.Ended false := by
  obtain ⟨t, ho⟩ := hx.open_worked
  simp [Trial.Ended, Trial.ending, hresult, events, ho]

/-- An attempt that is followed by another one has not committed. -/
theorem ended_of_retried (hx : Runs readOnly x) (hretried : x.Retried) : x.Ended false := by
  unfold Trial.Retried at hretried
  split at hretried
  next value hresult =>
    obtain ⟨committed, hfinish, hended⟩ := hx.ended_of_ok hresult
    cases hfinish.symm.trans hretried
    exact hended
  next failure hresult => exact hx.ended_of_error hresult

end Runs

/-- The attempts come one after the other, from one session to another. -/
inductive InSequence (readOnly : Bool) : Session → List (Trial α) → Session → Prop where
  | nil {s : Session} : InSequence readOnly s [] s
  | cons {x : Trial α} {later : List (Trial α)} {s' : Session} (first : Runs readOnly x)
      (rest : InSequence readOnly x.after later s') : InSequence readOnly x.before (x :: later) s'

/-- How a call returns after its attempts: with the value of the last one, which
    has committed; with the failure of the last one; or with a failure to begin
    another one. All other attempts have not committed and were tried again. -/
inductive Returns (readOnly : Bool) (s' : Session) :
    List (Trial α) → Except Failure α → Prop where
  | committed {earlier : List (Trial α)} {last : Trial α} {value : α}
      (retried : ∀ x ∈ earlier, x.Retried ∧ x.Ended false) (returned : last.result = .ok value)
      (ended : last.Ended true) : Returns readOnly s' (earlier ++ [last]) (.ok value)
  | failed {earlier : List (Trial α)} {last : Trial α} {failure : Failure}
      (retried : ∀ x ∈ earlier, x.Retried ∧ x.Ended false) (returned : last.result = .error failure)
      (final : failure.isRetryable = false) (ended : last.Ended false) :
      Returns readOnly s' (earlier ++ [last]) (.error failure)
  | refused {trials : List (Trial α)} {failure : Failure}
      (retried : ∀ x ∈ trials, x.Retried ∧ x.Ended false)
      (refused : (s'.begin readOnly).1 = .refused failure) (exhausted : failure = .idsExhausted) :
      Returns readOnly s' trials (.error failure)

/-- An attempt in front that was tried again. -/
theorem Returns.cons {x : Trial α} {trials : List (Trial α)} {result : Except Failure α}
    (hx : x.Retried ∧ x.Ended false) (h : Returns readOnly s' trials result) :
    Returns readOnly s' (x :: trials) result := by
  have hall : ∀ {earlier : List (Trial α)}, (∀ y ∈ earlier, y.Retried ∧ y.Ended false) →
      ∀ y ∈ x :: earlier, y.Retried ∧ y.Ended false := fun hearlier =>
    List.forall_mem_cons.2 ⟨hx, hearlier⟩
  cases h with
  | committed retried returned ended =>
    rw [← List.cons_append]
    exact .committed (hall retried) returned ended
  | failed retried returned final ended =>
    rw [← List.cons_append]
    exact .failed (hall retried) returned final ended
  | refused retried refused exhausted => exact .refused (hall retried) refused exhausted

/-- A call goes on after its first attempt if that is to be tried again, and
    returns what it has returned otherwise. -/
theorem attempts_of_runs {body : Nat → Handle → Body σ (Except Failure α)}
    {does : Nat → Handle → Session × σ → List Operation} (hdoes : Does body does) {k : Nat}
    {own : σ} (hx : Runs readOnly (trial readOnly body does k h s own)) (limit : Nat) :
    let x := trial readOnly body does k h s own
    let own' := (body k h (x.opened, own)).2.2
    attempts readOnly body (limit + 1) k (s, own) =
      if x.Retried then attempts readOnly body limit (k + 1) (x.after, own')
      else (some x.result, x.after, own') := by
  intro x own'
  have hbegins : (s.begin readOnly).1 = .started h := hx.begins
  have hbegin : s.begin readOnly = (.started h, x.opened) := by rw [← hbegins]; rfl
  have hbody : body k h (x.opened, own) = (x.result, x.worked, own') := by
    rw [Trial.worked]
    exact Prod.ext rfl (Prod.ext (hdoes k h (x.opened, own)) rfl)
  rw [attempts_succ, hbegin]
  simp only [hbody]
  cases hresult : x.result with
  | ok value =>
    obtain ⟨committed, hfinish, -⟩ := hx.ended_of_ok hresult
    have hafter : x.after = (x.worked.finish h).2 := by
      rw [Trial.after, Trial.ending, hresult]
      rfl
    have hretried : x.Retried ↔ committed = false := by
      rw [Trial.Retried, hresult, hfinish, Option.some.injEq]
    simp only [hretried, hafter]
    rw [show (x.worked.finish h).1 = some committed from hfinish]
    cases committed with
    | true => rfl
    | false => rfl
  | error failure =>
    have hafter : x.after = x.worked.abandon h := by
      rw [Trial.after, Trial.ending, hresult]
      rfl
    have hretried : x.Retried ↔ failure.isRetryable = true := by rw [Trial.Retried, hresult]
    simp only [hretried, hafter]

/-- A call that makes one attempt only returns what that returns. -/
theorem Runs.returns {x : Trial α} (hx : Runs readOnly x) (hlast : ¬ x.Retried) :
    Returns readOnly s' [x] x.result := by
  have hnone : ∀ y ∈ ([] : List (Trial α)), y.Retried ∧ y.Ended false := nofun
  rw [Trial.Retried] at hlast
  cases hresult : x.result with
  | ok value =>
    obtain ⟨committed, hfinish, hended⟩ := hx.ended_of_ok hresult
    rw [hresult, hfinish, Option.some.injEq, Bool.not_eq_false] at hlast
    rw [← List.nil_append [x]]
    exact .committed hnone hresult (hlast ▸ hended)
  | error failure =>
    rw [hresult, Bool.not_eq_true] at hlast
    rw [← List.nil_append [x]]
    exact .failed hnone hresult hlast (hx.ended_of_error hresult)

/-- What the attempts of a call come to, if it returns. -/
theorem returns_of_attempts {body : Nat → Handle → Body σ (Except Failure α)}
    {does : Nat → Handle → Session × σ → List Operation} (hdoes : Does body does) {limit k : Nat}
    {own : σ} {result : Except Failure α}
    (hkeeps : ∀ x ∈ trials readOnly body does limit k (s, own), x.KeepsOpen)
    (hresult : (attempts readOnly body limit k (s, own)).1 = some result)
    (hafter : (attempts readOnly body limit k (s, own)).2.1 = s') :
    InSequence readOnly s (trials readOnly body does limit k (s, own)) s' ∧
      Returns readOnly s' (trials readOnly body does limit k (s, own)) result := by
  induction limit generalizing k s own with
  | zero => cases hresult
  | succ limit ih =>
    rw [trials] at hkeeps ⊢
    cases hbegins : (s.begin readOnly).1 with
    | started h =>
      simp only [hbegins] at hkeeps ⊢
      have hx : Runs readOnly (trial readOnly body does k h s own) :=
        ⟨rfl, hbegins, hkeeps _ List.mem_cons_self⟩
      rw [attempts_of_runs hdoes hx] at hresult hafter
      split at hresult
      next hretried =>
        simp only [if_pos hretried] at hkeeps hafter ⊢
        obtain ⟨hsequence, hreturns⟩ :=
          ih (fun y hy => hkeeps y (List.mem_cons_of_mem _ hy)) hresult hafter
        exact ⟨.cons hx hsequence, hreturns.cons ⟨hretried, hx.ended_of_retried hretried⟩⟩
      next hlast =>
        simp only [if_neg hlast] at hafter ⊢
        rw [← hafter, ← Option.some.inj hresult]
        exact ⟨.cons hx .nil, hx.returns hlast⟩
    | blocked =>
      have hbegin : s.begin readOnly = (.blocked, s) :=
        Prod.ext hbegins (begin_of_not_started fun h heq => by cases hbegins.symm.trans heq)
      rw [attempts_succ, hbegin] at hresult
      cases hresult
    | refused failure =>
      have hbegin : s.begin readOnly = (.refused failure, s) :=
        Prod.ext hbegins (begin_of_not_started fun h heq => by cases hbegins.symm.trans heq)
      rw [attempts_succ, hbegin] at hresult hafter
      cases hresult
      rw [← show s = s' from hafter]
      exact ⟨.nil, .refused nofun hbegins (begin_refused hbegins)⟩

/-! ## What the history tells of them -/

namespace InSequence

variable {x : Trial α} {earlier later attempts : List (Trial α)}

theorem run_eq (h : InSequence readOnly s attempts s') :
    (s.run (attempts.flatMap Trial.operations)).2 = s' := by
  induction h with
  | nil => rfl
  | @cons x later s' first rest ih =>
    rw [List.flatMap_cons, run_append]
    show ((x.before.run x.operations).2.run _).2 = s'
    rw [x.run_operations]
    exact ih

/-- Every attempt begins where those before it have ended. -/
theorem cut (h : InSequence readOnly s (earlier ++ x :: later) s') :
    (s.run (earlier.flatMap Trial.operations)).2 = x.before ∧ Runs readOnly x ∧
      InSequence readOnly x.after later s' := by
  induction earlier generalizing s with
  | nil =>
    cases h with
    | cons first rest => exact ⟨rfl, first, rest⟩
  | cons y earlier ih =>
    cases h with
    | cons first rest =>
      rw [List.flatMap_cons, run_append]
      show ((y.before.run y.operations).2.run _).2 = x.before ∧ _
      rw [y.run_operations]
      exact ih rest

theorem flatMap_cut (earlier later : List (Trial α)) (x : Trial α) :
    (earlier ++ x :: later).flatMap Trial.operations =
      (earlier.flatMap Trial.operations ++ .begin x.readOnly :: x.work) ++
        x.ending :: later.flatMap Trial.operations := by
  simp [List.flatMap_append, List.flatMap_cons, Trial.operations]

/-- The session right before the end of an attempt. -/
theorem run_worked (h : InSequence readOnly s (earlier ++ x :: later) s') :
    (s.run (earlier.flatMap Trial.operations ++ .begin x.readOnly :: x.work)).2 = x.worked := by
  rw [run_append]
  show ((s.run (earlier.flatMap Trial.operations)).2.run (.begin x.readOnly :: x.work)).2 = x.worked
  rw [h.cut.1]
  rfl

/-- The history of the call tells how each attempt has ended. -/
theorem ended_mem (h : InSequence readOnly s attempts s') (hx : x ∈ attempts) {committed : Bool}
    (hended : x.Ended committed) :
    .ended x.handle committed ∈ s.record [] (attempts.flatMap Trial.operations) := by
  obtain ⟨earlier, later, rfl⟩ := List.append_of_mem hx
  rw [flatMap_cut]
  apply mem_record_of_cut
  rw [h.run_worked, hended]
  exact List.mem_singleton_self _

/-- Nobody that has begun an attempt is open when the call returns. -/
theorem closed (h : InSequence readOnly s attempts s') (hs : s.Steady) (hx : x ∈ attempts) :
    s'.open? x.handle = none := by
  obtain ⟨committed, hended⟩ : ∃ committed, x.Ended committed := by
    obtain ⟨earlier, later, rfl⟩ := List.append_of_mem hx
    obtain ⟨-, hruns, -⟩ := h.cut
    cases hresult : x.result with
    | ok value =>
      obtain ⟨committed, -, hended⟩ := hruns.ended_of_ok hresult
      exact ⟨committed, hended⟩
    | error failure => exact ⟨false, hruns.ended_of_error hresult⟩
  have heffects : Effects False s _ _ :=
    effects_record hs (attempts.flatMap Trial.operations) nofun
  have hclosed := ((endsOnce_effects heffects).closed _ _ (h.ended_mem hx hended)).2
  rwa [h.run_eq] at hclosed

/-- Read-write attempts have ids of their own, in ascending order. -/
theorem ids (h : InSequence false s attempts s') (hs : s.Steady) :
    attempts.Pairwise fun x y => ∀ t u, x.opened.open? x.handle = some t →
      y.opened.open? y.handle = some u → t.id.val < u.id.val := by
  induction h with
  | nil => exact .nil
  | @cons x later s' first rest ih =>
    have hopened : x.opened.Steady := hs.run [.begin x.readOnly]
    have hafter : x.after.Steady := by
      rw [← x.run_operations]
      exact hs.run x.operations
    refine List.pairwise_cons.2 ⟨fun y hy t u ht hu => ?_, ih hafter⟩
    -- The id of the first one was given out before the other one begins.
    have hfirst : t.id.val ≤ x.opened.region.ids.issued := by
      obtain ⟨t', ht', hmode⟩ := first.open_opened
      cases ht.symm.trans ht'
      exact hopened.issued _ t t.id ht (Transaction.mode_of_readWrite hmode)
    have hbetween : x.opened.region.ids.issued ≤ y.before.region.ids.issued := by
      obtain ⟨earlier, later, rfl⟩ := List.append_of_mem hy
      have hmiddle := issued_run hafter (earlier.flatMap Trial.operations)
      rw [rest.cut.1] at hmiddle
      have hwork : x.opened.region.ids.issued ≤ x.after.region.ids.issued := by
        have hrun := issued_run hopened (x.work ++ [x.ending])
        rwa [run_append] at hrun
      exact Nat.le_trans hwork hmiddle
    have hsecond : u.id.val = y.before.region.ids.issued + 1 := by
      obtain ⟨earlier, later, rfl⟩ := List.append_of_mem hy
      obtain ⟨hhandle, v, hbegins, hmode⟩ := rest.cut.2.1.begun
      rw [hhandle, hbegins.self] at hu
      cases hu
      rcases hbegins.identified with ⟨hreadOnly, -⟩ | ⟨id, hid, hval, -⟩
      · rw [Transaction.mode_of_readWrite hmode] at hreadOnly
        cases hreadOnly
      · rw [Transaction.mode_of_readWrite hmode] at hid
        cases hid
        exact hval
    omega

end InSequence

/-! ## What the call changes -/

/-- What a transaction brings about by its commit is what its operations have told. -/
theorem Runs.change_eq {x : Trial α} (hx : Runs readOnly x) (hs : x.before.Sound)
    (hrep : Represents hist x.before) (horderly : x.opened.Orderly x.work) :
    x.worked.change (x.before.record hist (.begin x.readOnly :: x.work)) x.handle = x.change := by
  obtain ⟨hhandle, t₀, hbegins, -⟩ := hx.begun
  obtain ⟨t, ho⟩ := hx.open_worked
  -- It has written nothing before it began.
  have hwritten : (fun ref =>
      (x.before.record hist (.begin x.readOnly :: x.work)).lastWrite x.handle ref)
        = x.change.written := by
    funext ref
    have hbefore : hist.lastWrite x.handle ref = none :=
      hrep.lastWrite_of_size_le (Nat.le_of_eq hhandle.symm) ref
    have hevents : x.before.events (.begin x.readOnly) = [.began x.handle] := by
      rw [events, hx.asked, hx.begins]
    rw [record, record_eq_append, hevents, History.lastWrite_append]
    show (_ : Option _).or (hist.lastWrite x.handle ref) = _
    rw [hbefore, Option.or_none]
    rfl
  -- Its logs of slots list what was reported since then.
  have hlists : x.opened.Lists x.handle [] [] := by
    refine ⟨fun t' ho' => ?_, fun _ => ⟨rfl, rfl⟩⟩
    rw [hhandle, hbegins.self] at ho'
    cases ho'
    exact hbegins.unlogged.2.2
  have hopened : x.opened.Sound := by
    have heffects : Effects True x.before _ _ := effects_begin x.before x.readOnly
    exact hs.effects heffects
  obtain ⟨hallocated, hfreed⟩ := (hlists.run hopened x.work horderly).isOpen t ho
  rw [change, ho, hwritten, Option.elim_some, Option.elim_some, hallocated, hfreed]
  rfl

/-- The commit of the call itself: the one of the last attempt, if the call
    returns a value. -/
def ownCommits (attempts : List (Trial α)) : Except Failure α → List (Handle × Change)
  | .ok _ => attempts.getLast?.toList.map fun x => (x.handle, x.change)
  | .error _ => []

/-- What a call comes to: one attempt that commits, or none. -/
structure CommitsOnce (readOnly : Bool) (hist : History) (s s' : Session)
    (attempts : List (Trial α)) (result : Except Failure α) : Prop where
  inSequence : InSequence readOnly s attempts s'
  returns : Returns readOnly s' attempts result
  /-- Every attempt has a transaction of the kind that was asked for. -/
  opened : ∀ x ∈ attempts, ∃ t, x.opened.open? x.handle = some t ∧ t.isReadOnly = readOnly
  /-- Read-write ones have different ids. -/
  ids : readOnly = false → attempts.Pairwise fun x y => ∀ t u,
    x.opened.open? x.handle = some t → y.opened.open? y.handle = some u → t.id ≠ u.id
  /-- None is left open. -/
  closed : ∀ x ∈ attempts, s'.open? x.handle = none
  /-- The committed contents change by the commit of the call, if it makes one,
      after the commits that other transactions have made meanwhile. -/
  contents : ∃ others,
    s.commits hist (attempts.flatMap Trial.operations) = others ++ ownCommits attempts result ∧
      (∀ commit ∈ others, ∀ x ∈ attempts, commit.1 ≠ x.handle) ∧
      s'.contents = s.contents.after (others ++ ownCommits attempts result)

/-- Whoever commits in a run has not ended in it in any other way. -/
theorem ne_of_aborted (hs : s.Steady) {operations : List Operation} {commit : Handle × Change}
    (hcommit : commit ∈ s.commits hist operations)
    (haborted : .ended h false ∈ s.record [] operations) : commit.1 ≠ h := by
  intro heq
  have heffects : Effects False s _ _ := effects_record hs operations nofun
  have hcommitted := ended_of_mem_commits hcommit
  rw [heq] at hcommitted
  exact (endsOnce_effects heffects).once h hcommitted haborted

/-- No attempt that has ended without a commit is among the commits of the call. -/
theorem InSequence.others {attempts : List (Trial α)} (h : InSequence readOnly s attempts s')
    (hs : s.Steady) (haborted : ∀ x ∈ attempts, x.Ended false) :
    ∀ commit ∈ s.commits hist (attempts.flatMap Trial.operations), ∀ x ∈ attempts,
      commit.1 ≠ x.handle :=
  fun _ hcommit x hx => ne_of_aborted hs hcommit (h.ended_mem hx (haborted x hx))

/-- If the last attempt commits, then this is the last commit of the call, and
    no other one is made by an attempt. -/
theorem InSequence.commits_eq {earlier : List (Trial α)} {last : Trial α} {value : α}
    (h : InSequence readOnly s (earlier ++ [last]) s') (hs : s.Sound) (hrep : Represents hist s)
    (horderly : s.Orderly ((earlier ++ [last]).flatMap Trial.operations))
    (haborted : ∀ x ∈ earlier, x.Ended false) (hreturned : last.result = .ok value)
    (hended : last.Ended true) : ∃ others,
      s.commits hist ((earlier ++ [last]).flatMap Trial.operations)
        = others ++ [(last.handle, last.change)] ∧
      ∀ commit ∈ others, ∀ x ∈ earlier ++ [last], commit.1 ≠ x.handle := by
  obtain ⟨hbefore, hruns, -⟩ := h.cut
  have hworked := h.run_worked
  have hcut := InSequence.flatMap_cut earlier [] last
  rw [hcut] at horderly
  obtain ⟨hmeanwhile, -⟩ := (s.orderly_append _ _).1 horderly
  -- The session in which the last attempt begins.
  obtain ⟨hearlier, -, hwork⟩ := (s.orderly_append _ _).1 hmeanwhile
  have hfirst : Effects True s _ _ := effects_record hs.toSteady _ fun _ => hearlier
  have hrepBefore := hrep.effects hs.toSteady hfirst
  have hsBefore := hs.effects hfirst
  rw [← record_eq_append, hbefore] at hrepBefore
  rw [hbefore] at hsBefore hwork
  have hending : last.ending = .finish last.handle := by rw [Trial.ending, hreturned]
  refine ⟨s.commits hist (earlier.flatMap Trial.operations ++ .begin last.readOnly :: last.work),
    ?_, ?_⟩
  · have hfinish : (last.worked.finish last.handle).1 = some true := by
      obtain ⟨committed, hfinish, hverdict⟩ := hruns.ended_of_ok hreturned
      have heq := hverdict.symm.trans hended
      cases heq
      exact hfinish
    rw [hcut, commits_append, hworked, record_append, hbefore, hending]
    simp only [List.flatMap_nil, commits, commit?, if_pos hfinish, Option.toList_some,
      List.append_nil]
    rw [hruns.change_eq hsBefore hrepBefore hwork]
  · intro commit hcommit x hx
    have hcommitted := ended_of_mem_commits hcommit
    rcases List.mem_append.1 hx with hx | hx
    · apply ne_of_aborted hs.toSteady _ (h.ended_mem (List.mem_append_left _ hx) (haborted x hx))
      · exact hist
      · rw [hcut, commits_append]
        exact List.mem_append_left _ hcommit
    · -- The last one is open until the commit.
      rw [List.mem_singleton.1 hx]
      intro heq
      obtain ⟨t, ho⟩ := hruns.open_worked
      have heffects : Effects False s _ _ := effects_record hs.toSteady
        (earlier.flatMap Trial.operations ++ .begin last.readOnly :: last.work) False.elim
      have hclosed := ((endsOnce_effects heffects).closed _ _ hcommitted).2
      rw [hworked, heq, ho] at hclosed
      cases hclosed

/-- A call that returns after some attempts commits once, or not at all. -/
theorem commitsOnce_of_returns {attempts : List (Trial α)} {result : Except Failure α}
    (hsequence : InSequence readOnly s attempts s') (hreturns : Returns readOnly s' attempts result)
    (hs : s.Sound) (hrep : Represents hist s)
    (horderly : s.Orderly (attempts.flatMap Trial.operations)) :
    CommitsOnce readOnly hist s s' attempts result := by
  have hcontents := contents_run hs hrep horderly
  rw [hsequence.run_eq] at hcontents
  constructor
  case inSequence => exact hsequence
  case returns => exact hreturns
  case opened =>
    intro x hx
    obtain ⟨earlier, later, rfl⟩ := List.append_of_mem hx
    exact hsequence.cut.2.1.open_opened
  case ids =>
    rintro rfl
    refine (hsequence.ids hs.toSteady).imp fun hlt t u ht hu heq => ?_
    have hval := hlt t u ht hu
    rw [heq] at hval
    exact Nat.lt_irrefl _ hval
  case closed => exact fun x hx => hsequence.closed hs.toSteady hx
  case contents =>
    cases hreturns with
    | @committed earlier last value retried returned ended =>
      obtain ⟨others, hcommits, hothers⟩ := hsequence.commits_eq hs hrep horderly
        (fun x hx => (retried x hx).2) returned ended
      have hown : ownCommits (earlier ++ [last]) (.ok value) = [(last.handle, last.change)] := by
        simp [ownCommits]
      rw [hcommits] at hcontents
      rw [hown]
      exact ⟨others, hcommits, hothers, hcontents⟩
    | @failed earlier last failure retried returned final ended =>
      have haborted : ∀ x ∈ earlier ++ [last], x.Ended false := by
        intro x hx
        rcases List.mem_append.1 hx with hx | hx
        · exact (retried x hx).2
        · rw [List.mem_singleton.1 hx]
          exact ended
      refine ⟨_, (List.append_nil _).symm, hsequence.others hs.toSteady haborted, ?_⟩
      rw [ownCommits, List.append_nil]
      exact hcontents
    | refused retried refused exhausted =>
      refine ⟨_, (List.append_nil _).symm,
        hsequence.others hs.toSteady fun x hx => (retried x hx).2, ?_⟩
      rw [ownCommits, List.append_nil]
      exact hcontents

/-- Take any orderly run, and a call of `atomically` whose body does whole
    operations, its own and those of other transactions, without ending its own
    transaction, and so that the run stays orderly. If the call returns, it has
    made one attempt after the other, each with a transaction of its own.

    If it returns a value, the last attempt has returned this value and has
    committed. If it returns a failure, the last attempt has returned it, it is
    not worth another attempt, and nobody has committed; or no transaction could
    begin any more. All earlier attempts have not committed, because the body
    failed in a way worth another attempt or because the commit was refused.
    None of the transactions is left open, and read-write ones have different
    ids.

    The committed contents are those from before, changed by the commits of other
    transactions and then by what the attempt that has committed wrote, allocated
    and freed. -/
theorem run_commits_once {settings : Settings} {start : Session}
    (hcreate : create settings = .ok start) {operations : List Operation}
    (hrun : (start.run operations).2 = s) (hrecord : start.record [] operations = hist)
    {body : Nat → Handle → Body σ (Except Failure α)}
    {does : Nat → Handle → Session × σ → List Operation} (hdoes : Does body does) {limit : Nat}
    {own : σ} {attempts : List (Trial α)}
    (hattempts : trials readOnly body does limit 1 (s, own) = attempts)
    (hkeeps : ∀ x ∈ attempts, x.KeepsOpen)
    (horderly : start.Orderly (operations ++ attempts.flatMap Trial.operations))
    {result : Except Failure α}
    (hresult : (atomically readOnly limit body (s, own)).1 = some result)
    (hafter : (atomically readOnly limit body (s, own)).2.1 = s') :
    CommitsOnce readOnly hist s s' attempts result := by
  obtain ⟨hbefore, hcall⟩ := (start.orderly_append _ _).1 horderly
  have hrec := (Recorded.created hcreate).run operations hbefore
  rw [hrun, hrecord] at hrec
  rw [hrun] at hcall
  subst hattempts
  obtain ⟨hsequence, hreturns⟩ := returns_of_attempts hdoes hkeeps hresult hafter
  exact commitsOnce_of_returns hsequence hreturns hrec.sound hrec.represents hcall

/-- A transaction is open and has written the word. -/
def claimedWord : List Operation := [.begin false, .write 0 Region.start [7, 7, 7, 7, 7, 7, 7, 7]]

/-- The first attempt meets the claim. The second one observes the word, and then
    lets the other transaction commit. The third one allocates a segment and
    overwrites the word. -/
def persistent (k : Nat) (h : Handle) : Script Unit :=
  match k with
  | 1 => .act (.write h Region.start [1, 2, 3, 4, 5, 6, 7, 8]) fun answer =>
    .done (match answer.failure? with
      | some failure => .error failure
      | none => .ok ())
  | 2 => .act (.read h Region.start 8) fun _ => .act (.finish 0) fun _ => .done (.ok ())
  | _ => .act (.alloc h 8 true) fun _ =>
    .act (.write h Region.start [1, 2, 3, 4, 5, 6, 7, 8]) fun _ => .done (.ok ())

/-- The first attempt fails and is abandoned, the commit of the second one is
    refused, and the third one commits. -/
theorem run_commits_once_third_time :
    ∃ start s' attempts, create { size := 8, align := 8 } = .ok start ∧
      attempts.map Trial.handle = [1, 2, 3] ∧
      attempts.map Trial.result = [.error (.conflict Region.start), .ok (), .ok ()] ∧
      CommitsOnce false (start.record [] claimedWord) (start.run claimedWord).2 s' attempts
        (.ok ()) := by
  refine ⟨_, _, _, rfl, ?_, ?_, @run_commits_once Unit Unit _ _ _ false { size := 8, align := 8 }
    _ rfl claimedWord rfl rfl _ _ (does_script persistent) 3 () _ rfl ?_ ?_ _ ?_ rfl⟩
  · decide +kernel
  · decide +kernel
  · decide +kernel
  · decide +kernel
  · decide +kernel

end Session

end TransactionalMemory
