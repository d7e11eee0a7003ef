import TransactionalMemory.Interface
import TransactionalMemory.Proofs.Session.Operations

/-! # Calls and what they come to

    A caller of the interface has handles only. Behind a handle there is a region
    or a transaction of some region, and a call comes to one operation on that
    region: the operation of the same name, or giving up where a buffer is
    missing. A call that comes to no operation leaves every region alone, unless
    it creates or destroys one.

    So whatever the calls, each region is in the state that its own operations
    have brought it to, and each reply says what its operation has answered. -/

namespace TransactionalMemory

inductive Call where
  /-- Create a region, if there is `memory` for its permanent segment. -/
  | create (size align : Nat) (memory : Bool)
  | destroy (region : Nat)
  | start (region : Nat)
  /-- The size of the permanent segment of a region. -/
  | size (region : Nat)
  /-- The word size of a region. -/
  | align (region : Nat)
  | begin (region : Nat) (readOnly : Bool)
  | finish (transaction : Nat)
  /-- Read a range, into a buffer if there is one. -/
  | read (transaction : Nat) (a : Address) (length : Nat) (hasBuffer : Bool)
  /-- Write the bytes of a buffer, if there is one. -/
  | write (transaction : Nat) (a : Address) (buffer : Option (List UInt8))
  /-- Allocate a segment, if there is a buffer for its address, and `memory` for
      the segment. -/
  | alloc (transaction : Nat) (size : Nat) (hasBuffer memory : Bool)
  | free (transaction : Nat) (a : Address)
  deriving DecidableEq

inductive Reply where
  /-- The handle of a region or of a transaction. -/
  | handle (n : Nat)
  | address (a : Address)
  /-- A size. -/
  | number (n : Nat)
  /-- Whether the call succeeded. -/
  | flag (success : Bool)
  /-- The bytes in the buffer, if the read succeeded. -/
  | bytes (value : Option (List UInt8))
  /-- The code of an allocation, and the address in the buffer. -/
  | code (code : AllocCode) (a : Option Address)
  | nothing
  deriving DecidableEq

namespace Call

/-- The region handle that comes with a call for a region. -/
def region? : Call → Option Nat
  | .start region | .size region | .align region | .begin region _ => some region
  | _ => none

/-- The transaction handle that comes with a call for a transaction. -/
def transaction? : Call → Option Nat
  | .finish n | .read n _ _ _ | .write n _ _ | .alloc n _ _ _ | .free n _ => some n
  | _ => none

def failure : Call → Reply
  | .create .. => .handle nullRegion
  | .destroy _ => .nothing
  | .start _ => .address .null
  | .size _ | .align _ => .number 0
  | .begin .. => .handle invalidTransaction
  | .finish _ | .write .. | .free .. => .flag false
  | .read .. => .bytes none
  | .alloc .. => .code .aborted none

end Call

namespace Interface

variable {i i' : Interface} {call : Call} {region n : Nat} {operation : Operation}
  {s : Session} {h : Handle}

def step (i : Interface) : Call → Reply × Interface
  | .create size align memory =>
    let (region, i) := i.create size align memory; (.handle region, i)
  | .destroy region => (.nothing, i.destroy region)
  | .start region => (.address (i.start region), i)
  | .size region => (.number (i.size region), i)
  | .align region => (.number (i.align region), i)
  | .begin region readOnly =>
    let (transaction, i) := i.begin region readOnly; (.handle transaction, i)
  | .finish n => let (committed, i) := i.finish n; (.flag committed, i)
  | .read n a length hasBuffer =>
    let (value, i) := i.read n a length hasBuffer; (.bytes value, i)
  | .write n a buffer => let (success, i) := i.write n a buffer; (.flag success, i)
  | .alloc n size hasBuffer memory =>
    let (code, a, i) := i.alloc n size hasBuffer memory; (.code code a, i)
  | .free n a => let (success, i) := i.free n a; (.flag success, i)

def run (i : Interface) (calls : List Call) : Interface :=
  calls.foldl (fun i call => (i.step call).2) i

/-- The operation for the open transaction of a handle, with the handle of its region. -/
def within (i : Interface) (n : Nat) (operation : Handle → Operation) : Option (Nat × Operation) :=
  (i.transaction? n).map fun (region, _, h) => (region, operation h)

/-- The operation that a call comes to, and the handle of the region that it is
    done on. Without its buffer, a call gives up on the transaction. -/
def operation? (i : Interface) : Call → Option (Nat × Operation)
  | .begin region readOnly => (i.session? region).map fun _ => (region, .begin readOnly)
  | .finish n => i.within n fun h => .finish h
  | .read n a length true => i.within n fun h => .read h a length
  | .write n a (some bytes) => i.within n fun h => .write h a bytes
  | .alloc n size true memory => i.within n fun h => .alloc h size memory
  | .free n a => i.within n fun h => .free h a
  | .read n _ _ false | .write n _ none | .alloc n _ false _ => i.within n fun h => .abort h
  | .create .. | .destroy _ | .start _ | .size _ | .align _ => none

/-- The operation that a call comes to, if it is done on the region of the handle. -/
def share (i : Interface) (region : Nat) (call : Call) : List Operation :=
  ((i.operation? call).filter (·.1 = region)).toList.map Prod.snd

/-- The operations on a region that the calls come to. -/
def script (i : Interface) (region : Nat) : List Call → List Operation
  | [] => []
  | call :: rest => i.share region call ++ (i.step call).2.script region rest

/-- Whether every operation that the calls come to is orderly. -/
def Orderly (i : Interface) : List Call → Prop
  | [] => True
  | call :: rest =>
    (∀ x ∈ i.operation? call, ∀ s ∈ i.session? x.1, s.Allows x.2) ∧ (i.step call).2.Orderly rest

instance decidableOrderly (i : Interface) : (calls : List Call) → Decidable (i.Orderly calls)
  | [] => inferInstanceAs (Decidable True)
  | call :: rest =>
    have := decidableOrderly (i.step call).2 rest
    inferInstanceAs (Decidable ((∀ x ∈ i.operation? call, ∀ s ∈ i.session? x.1, s.Allows x.2) ∧
      (i.step call).2.Orderly rest))

/-- What a call says of the answer of its operation. All that is not said here
    is reported as failure. -/
def report (i : Interface) (call : Call) (answer : Answer) : Reply :=
  match call, answer with
  | .begin .., .begun (.started _) => .handle (i.transactions.size + 1)
  | .finish _, .ended (some committed) => .flag committed
  | .read .., .bytes (some (.ok bytes)) => .bytes (some bytes)
  | .write .., .done (some (.ok ())) => .flag true
  | .alloc .., .allocated (some (.ok a)) => .code .success (some a)
  | .alloc .., .allocated (some (.error .outOfMemory)) => .code .noMemory none
  | .free .., .done (some (.ok ())) => .flag true
  | _, _ => call.failure

/-! ## Handles -/

theorem session?_setSession_self (o : Option Session) (h : i.session? region = some s) :
    (i.setSession region o).session? region = o := by
  cases region with
  | zero => cases h
  | succ k =>
    have hlt : k < i.sessions.size := by
      by_cases hlt : k < i.sessions.size
      · exact hlt
      · simp [session?, hlt] at h
    simp [session?, setSession, hlt]

theorem session?_setSession_ne (o : Option Session) (hne : n ≠ region) :
    (i.setSession region o).session? n = i.session? n := by
  cases region with
  | zero => rfl
  | succ k =>
    cases n with
    | zero => rfl
    | succ m =>
      have hkm : k ≠ m := by omega
      simp [session?, setSession, Array.getElem?_setIfInBounds_ne hkm]

theorem setSession_self (hs : i.session? region = some s) :
    i.setSession region (some s) = i := by
  cases region with
  | zero => rfl
  | succ k =>
    have hget : i.sessions[k]? = some (some s) := Option.join_eq_some_iff.1 hs
    have hsessions : i.sessions.setIfInBounds k (some s) = i.sessions := by
      apply Array.ext_getElem?
      intro m
      rw [Array.getElem?_setIfInBounds]
      split
      next heq =>
        subst heq
        rw [hget, if_pos (Array.getElem?_eq_some_iff.1 hget).1]
      next => rfl
    simp only [setSession, hsessions]

@[simp] theorem size_setSession (i : Interface) (region : Nat) (o : Option Session) :
    (i.setSession region o).sessions.size = i.sessions.size := by
  cases region <;> simp [setSession]

@[simp] theorem transactions_setSession (i : Interface) (region : Nat) (o : Option Session) :
    (i.setSession region o).transactions = i.transactions := by
  cases region <;> rfl

/-- What is behind the handle of a transaction. -/
theorem transaction?_eq_some_iff : i.transaction? n = some (region, s, h) ↔
    i.locate? n = some (region, h) ∧ i.session? region = some s ∧ (s.open? h).isSome = true := by
  simp only [transaction?, Option.bind_eq_bind, Option.bind_eq_some_iff, Prod.exists]
  constructor
  · rintro ⟨region', h', hlocated, s', hs', hif⟩
    split at hif
    next hopen =>
      cases hif
      exact ⟨hlocated, hs', hopen⟩
    next => cases hif
  · rintro ⟨hlocated, hs, hopen⟩
    exact ⟨region, h, hlocated, s, hs, if_pos hopen⟩

/-! ## What a call comes to -/

/-- An operation is done on the region of a handle. The handles keep their
    meaning, and whoever is begun by it gets a new one. -/
structure Acts (i : Interface) (region : Nat) (s : Session) (operation : Operation)
    (i' : Interface) : Prop where
  before : i.session? region = some s
  after : i'.session? region = some (s.step operation).2
  others : ∀ n, n ≠ region → i'.session? n = i.session? n
  regions : i'.sessions.size = i.sessions.size
  transactions : i'.transactions = i.transactions ∨
    ∃ h, (s.step operation).1 = .begun (.started h) ∧
      i'.transactions = i.transactions.push (region, h)

theorem acts_setSession (hs : i.session? region = some s) {s' : Session}
    (hs' : (s.step operation).2 = s') :
    i.Acts region s operation (i.setSession region (some s')) where
  before := hs
  after := by rw [hs', session?_setSession_self _ hs]
  others _ hn := session?_setSession_ne _ hn
  regions := i.size_setSession region _
  transactions := .inl (i.transactions_setSession region _)

/-- Nothing is done where the operation changes nothing. -/
theorem acts_self (hs : i.session? region = some s) (hsame : (s.step operation).2 = s) :
    i.Acts region s operation i where
  before := hs
  after := by rw [hsame, hs]
  others _ _ := rfl
  regions := rfl
  transactions := .inl rfl

theorem acts_abort (htransaction : i.transaction? n = some (region, s, h)) :
    i.Acts region s (.abort h) (i.abort n) := by
  simp only [abort, htransaction]
  exact acts_setSession (transaction?_eq_some_iff.1 htransaction).2.1 rfl

theorem within_eq_some_iff {f : Handle → Operation} :
    i.within n f = some (region, operation) ↔
      ∃ s h, i.transaction? n = some (region, s, h) ∧ operation = f h := by
  simp only [within, Option.map_eq_some_iff, Prod.exists, Prod.mk.injEq]
  constructor
  · rintro ⟨region', s, h, htransaction, rfl, rfl⟩
    exact ⟨s, h, htransaction, rfl⟩
  · rintro ⟨s, h, htransaction, rfl⟩
    exact ⟨region, s, h, htransaction, rfl, rfl⟩

theorem within_of_transaction? (htransaction : i.transaction? n = some (region, s, h))
    (f : Handle → Operation) : i.within n f = some (region, f h) :=
  within_eq_some_iff.2 ⟨s, h, htransaction, rfl⟩

theorem within_eq_none_iff {f : Handle → Operation} :
    i.within n f = none ↔ i.transaction? n = none := Option.map_eq_none_iff

theorem acts_begin (hs : i.session? region = some s) (readOnly : Bool) :
    i.Acts region s (.begin readOnly) (i.step (.begin region readOnly)).2 ∧
      (i.step (.begin region readOnly)).1
        = i.report (.begin region readOnly) (s.step (.begin readOnly)).1 := by
  rcases hbegin : s.begin readOnly with ⟨outcome, s'⟩
  have hanswer : s.step (.begin readOnly) = (.begun outcome, s') := by simp [Session.step, hbegin]
  have hunchanged : (∀ h, outcome ≠ .started h) → (s.step (.begin readOnly)).2 = s := by
    intro hnot
    apply Session.begin_of_not_started
    rwa [hbegin]
  cases outcome with
  | started h =>
    have hacts : i.Acts region s (.begin readOnly) (i.setSession region (some s')) :=
      acts_setSession hs (by rw [hanswer])
    have hstep : i.step (.begin region readOnly) = (.handle (i.transactions.size + 1),
        { i.setSession region (some s') with
          transactions := i.transactions.push (region, h) }) := by
      simp [step, begin, hs, hbegin]
    rw [hstep, hanswer]
    -- The handle of the transaction is new.
    have htransactions : (s.step (.begin readOnly)).1 = .begun (.started h) := by rw [hanswer]
    exact ⟨⟨hs, hacts.after, hacts.others, hacts.regions, .inr ⟨h, htransactions, rfl⟩⟩, rfl⟩
  | blocked =>
    have hstep : i.step (.begin region readOnly) = (.handle invalidTransaction, i) := by
      simp [step, begin, hs, hbegin]
    rw [hstep, hanswer]
    exact ⟨acts_self hs (hunchanged nofun), rfl⟩
  | refused failure =>
    have hstep : i.step (.begin region readOnly) = (.handle invalidTransaction, i) := by
      simp [step, begin, hs, hbegin]
    rw [hstep, hanswer]
    exact ⟨acts_self hs (hunchanged nofun), rfl⟩

/-- A call does the operation that it comes to, and reports the answer. -/
theorem acts_of_operation? (hoperation : i.operation? call = some (region, operation)) :
    ∃ s, i.Acts region s operation (i.step call).2 ∧
      (i.step call).1 = i.report call (s.step operation).1 := by
  have hopen : ∀ {n s h}, i.transaction? n = some (region, s, h) → i.session? region = some s :=
    fun htransaction => (transaction?_eq_some_iff.1 htransaction).2.1
  cases call with
  | create size align memory => cases hoperation
  | destroy region => cases hoperation
  | start region => cases hoperation
  | size region => cases hoperation
  | align region => cases hoperation
  | begin region' readOnly =>
    obtain ⟨s, hs, heq⟩ := Option.map_eq_some_iff.1 hoperation
    cases heq
    exact ⟨s, acts_begin hs readOnly⟩
  | finish n =>
    obtain ⟨s, h, htransaction, rfl⟩ := within_eq_some_iff.1 hoperation
    refine ⟨s, ?_⟩
    rcases hfinish : s.finish h with ⟨_ | committed, s'⟩ <;>
    · simp only [step, finish, htransaction, hfinish]
      exact ⟨acts_setSession (hopen htransaction) (by simp [Session.step, hfinish]),
        by simp [report, Session.step, hfinish, Call.failure]⟩
  | read n a length hasBuffer =>
    cases hasBuffer <;> simp only [operation?, within_eq_some_iff] at hoperation <;>
      obtain ⟨s, h, htransaction, rfl⟩ := hoperation
    case false => exact ⟨s, acts_abort htransaction, rfl⟩
    case true =>
      refine ⟨s, ?_⟩
      rcases hread : s.read h a length with ⟨_ | failure | bytes, s'⟩ <;>
      · simp only [step, read, access, htransaction, hread, if_true]
        exact ⟨acts_setSession (hopen htransaction) (by simp [Session.step, hread]),
          by simp [report, Session.step, hread, Call.failure]⟩
  | write n a buffer =>
    cases buffer <;> simp only [operation?, within_eq_some_iff] at hoperation <;>
      obtain ⟨s, h, htransaction, rfl⟩ := hoperation
    case none => exact ⟨s, acts_abort htransaction, rfl⟩
    case some bytes =>
      refine ⟨s, ?_⟩
      rcases hwrite : s.write h a bytes with ⟨_ | failure | done, s'⟩ <;>
      · simp only [step, write, access, htransaction, hwrite]
        exact ⟨acts_setSession (hopen htransaction) (by simp [Session.step, hwrite]),
          by simp [report, Session.step, hwrite, Call.failure]⟩
  | alloc n size hasBuffer memory =>
    cases hasBuffer <;> simp only [operation?, within_eq_some_iff] at hoperation <;>
      obtain ⟨s, h, htransaction, rfl⟩ := hoperation
    case false => exact ⟨s, acts_abort htransaction, rfl⟩
    case true =>
      refine ⟨s, ?_⟩
      rcases halloc : s.alloc h size memory with ⟨_ | failure | a, s'⟩
      · simp only [step, alloc, access, htransaction, halloc, if_true]
        exact ⟨acts_setSession (hopen htransaction) (by simp [Session.step, halloc]),
          by simp [report, Session.step, halloc, Call.failure]⟩
      · -- Want of memory is reported with a code of its own.
        cases failure <;>
        · simp only [step, alloc, access, htransaction, halloc, if_true]
          exact ⟨acts_setSession (hopen htransaction) (by simp [Session.step, halloc]),
            by simp [report, Session.step, halloc, Call.failure]⟩
      · simp only [step, alloc, access, htransaction, halloc, if_true]
        exact ⟨acts_setSession (hopen htransaction) (by simp [Session.step, halloc]),
          by simp [report, Session.step, halloc]⟩
  | free n a =>
    simp only [operation?, within_eq_some_iff] at hoperation
    obtain ⟨s, h, htransaction, rfl⟩ := hoperation
    refine ⟨s, ?_⟩
    rcases hfree : s.free h a with ⟨_ | failure | done, s'⟩ <;>
    · simp only [step, free, access, htransaction, hfree]
      exact ⟨acts_setSession (hopen htransaction) (by simp [Session.step, hfree]),
        by simp [report, Session.step, hfree, Call.failure]⟩

/-- The region of the operation may be known before. -/
theorem acts_of_session? (call : Call) (hoperation : i.operation? call = some (region, operation))
    (hs : i.session? region = some s) : i.Acts region s operation (i.step call).2 ∧
      (i.step call).1 = i.report call (s.step operation).1 := by
  obtain ⟨s', hacts, hreply⟩ := acts_of_operation? hoperation
  cases hacts.before.symm.trans hs
  exact ⟨hacts, hreply⟩

/-! ## Calls that come to no operation -/

/-- Without its region, a call fails and changes nothing. -/
theorem step_of_session?_none (hcall : call.region? = some region)
    (hnone : i.session? region = none) : i.step call = (call.failure, i) := by
  cases call <;> cases hcall <;>
    simp [step, start, size, align, begin, hnone, Call.failure]

/-- Nor does a call change anything without an open transaction. -/
theorem step_of_transaction?_none (hcall : call.transaction? = some n)
    (hnone : i.transaction? n = none) : i.step call = (call.failure, i) := by
  cases call with
  | read n a length hasBuffer =>
    cases hcall
    cases hasBuffer <;> simp [step, read, access, abort, hnone, Call.failure]
  | write n a buffer =>
    cases hcall
    cases buffer <;> simp [step, write, access, abort, hnone, Call.failure]
  | alloc n size hasBuffer memory =>
    cases hcall
    cases hasBuffer <;> simp [step, alloc, access, abort, hnone, Call.failure]
  | finish n => cases hcall; simp [step, finish, hnone, Call.failure]
  | free n a => cases hcall; simp [step, free, access, hnone, Call.failure]
  | create size align memory => cases hcall
  | destroy region => cases hcall
  | start region => cases hcall
  | size region => cases hcall
  | align region => cases hcall
  | begin region readOnly => cases hcall

/-- What a call does that comes to no operation, with what it reports. It may
    create a region or destroy one, and changes nothing else. -/
inductive Passive (i : Interface) : Call → Reply × Interface → Prop where
  | created {size align : Nat} {memory : Bool} {s : Session}
      (created : Session.create { size, align } memory = .ok s) :
      Passive i (.create size align memory)
        (.handle (i.sessions.size + 1), { i with sessions := i.sessions.push (some s) })
  | refused {size align : Nat} {memory : Bool} {failure : Failure}
      (refused : Session.create { size, align } memory = .error failure) :
      Passive i (.create size align memory) (.handle nullRegion, i)
  | destroyed (region : Nat) : Passive i (.destroy region) (.nothing, i.setSession region none)
  | start {region : Nat} {s : Session} (found : i.session? region = some s) :
      Passive i (.start region) (.address Region.start, i)
  | size {region : Nat} {s : Session} (found : i.session? region = some s) :
      Passive i (.size region) (.number s.region.size, i)
  | align {region : Nat} {s : Session} (found : i.session? region = some s) :
      Passive i (.align region) (.number s.region.wordSize, i)
  | withoutRegion {call : Call} {region : Nat} (refers : call.region? = some region)
      (gone : i.session? region = none) : Passive i call (call.failure, i)
  | withoutTransaction {call : Call} {n : Nat} (refers : call.transaction? = some n)
      (gone : i.transaction? n = none) : Passive i call (call.failure, i)

theorem passive_of_operation?_none (hnone : i.operation? call = none) :
    i.Passive call (i.step call) := by
  have hregion : ∀ {region}, call.region? = some region → i.session? region = none →
      i.Passive call (i.step call) := by
    intro region hcall hgone
    rw [step_of_session?_none hcall hgone]
    exact .withoutRegion hcall hgone
  have htransaction : ∀ {n}, call.transaction? = some n → i.transaction? n = none →
      i.Passive call (i.step call) := by
    intro n hcall hgone
    rw [step_of_transaction?_none hcall hgone]
    exact .withoutTransaction hcall hgone
  cases call with
  | create size align memory =>
    simp only [step, create]
    cases hcreate : Session.create { size, align } memory with
    | error failure => exact .refused hcreate
    | ok s => exact .created hcreate
  | destroy region => exact .destroyed region
  | start region =>
    cases hs : i.session? region with
    | none => exact hregion rfl hs
    | some s => simpa [step, start, hs] using Passive.start hs
  | size region =>
    cases hs : i.session? region with
    | none => exact hregion rfl hs
    | some s => simpa [step, size, hs] using Passive.size hs
  | align region =>
    cases hs : i.session? region with
    | none => exact hregion rfl hs
    | some s => simpa [step, align, hs] using Passive.align hs
  | begin region readOnly => exact hregion rfl (Option.map_eq_none_iff.1 hnone)
  | finish n => exact htransaction rfl (within_eq_none_iff.1 hnone)
  | read n a length hasBuffer =>
    cases hasBuffer <;> simp only [operation?, within_eq_none_iff] at hnone <;>
      exact htransaction rfl hnone
  | write n a buffer =>
    cases buffer <;> simp only [operation?, within_eq_none_iff] at hnone <;>
      exact htransaction rfl hnone
  | alloc n size hasBuffer memory =>
    cases hasBuffer <;> simp only [operation?, within_eq_none_iff] at hnone <;>
      exact htransaction rfl hnone
  | free n a =>
    simp only [operation?, within_eq_none_iff] at hnone
    exact htransaction rfl hnone

/-! ## What becomes of a region -/

theorem share_of_operation? (hoperation : i.operation? call = some (region, operation)) (n : Nat) :
    i.share n call = if region = n then [operation] else [] := by
  by_cases hn : region = n <;> simp [share, hoperation, Option.filter, hn]

theorem share_of_operation?_none (hnone : i.operation? call = none) (n : Nat) :
    i.share n call = [] := by
  simp [share, hnone]

/-- A handle that has not been given out is that of no region. -/
theorem session?_of_size_lt (hlt : i.sessions.size < region) : i.session? region = none := by
  cases region with
  | zero => rfl
  | succ k => simp [session?, Array.getElem?_eq_none (Nat.le_of_lt_succ hlt)]

theorem session?_push (i : Interface) (s : Session) (n : Nat) :
    session? { i with sessions := i.sessions.push (some s) } n
      = if n = i.sessions.size + 1 then some s else i.session? n := by
  cases n with
  | zero => rfl
  | succ m =>
    by_cases hm : m = i.sessions.size
    · simp [session?, hm]
    · simp [session?, Array.getElem?_push, hm]

theorem session?_destroyed (i : Interface) (region n : Nat) :
    (i.setSession region none).session? n = if n = region then none else i.session? n := by
  by_cases hn : n = region
  · cases hs : i.session? region with
    | none =>
      -- There was no region, perhaps no such handle at all.
      subst hn
      cases n with
      | zero => rfl
      | succ m =>
        simp only [session?, setSession, Array.getElem?_setIfInBounds, if_true]
        split <;> simp
    | some s => rw [if_pos hn, hn, session?_setSession_self none hs]
  · rw [if_neg hn, session?_setSession_ne none hn]

namespace Passive

variable {x : Reply × Interface}

theorem le_size (h : i.Passive call x) : i.sessions.size ≤ x.2.sessions.size := by
  cases h <;> simp

theorem transactions_eq (h : i.Passive call x) : x.2.transactions = i.transactions := by
  cases h <;> simp

/-- A region that is there is left alone, unless it is destroyed. -/
theorem kept (h : i.Passive call x) (hs : i.session? region = some s) :
    x.2.session? region = none ∨ x.2.session? region = some s := by
  cases h with
  | created created =>
    rw [session?_push]
    split
    next heq =>
      rw [session?_of_size_lt (by omega)] at hs
      cases hs
    next => exact .inr hs
  | destroyed other =>
    rw [session?_destroyed]
    split
    · exact .inl rfl
    · exact .inr hs
  | _ => exact .inr hs

/-- A region that was not there is a new one. -/
theorem new (h : i.Passive call x) (hnone : i.session? region = none)
    (hs : x.2.session? region = some s) :
    region = i.sessions.size + 1 ∧
      ∃ size align, call = .create size align true ∧ Session.create { size, align } = .ok s := by
  cases h with
  | @created size align memory s' created =>
    rw [session?_push] at hs
    split at hs
    next heq =>
      cases hs
      cases Session.memory_of_create created
      exact ⟨heq, size, align, rfl, created⟩
    next => cases hnone.symm.trans hs
  | destroyed other =>
    rw [session?_destroyed, hnone] at hs
    split at hs <;> cases hs
  | _ => cases hnone.symm.trans hs

end Passive

theorem size_step (i : Interface) (call : Call) :
    i.sessions.size ≤ (i.step call).2.sessions.size := by
  cases hoperation : i.operation? call with
  | some x =>
    obtain ⟨s, hacts, -⟩ := acts_of_operation? hoperation
    exact Nat.le_of_eq hacts.regions.symm
  | none => exact (passive_of_operation?_none hoperation).le_size

/-- A call does to a region that is there what it comes to, or destroys it. -/
theorem session?_step (hs : i.session? region = some s) (call : Call) :
    (i.step call).2.session? region = none ∨
      (i.step call).2.session? region = some (s.run (i.share region call)).2 := by
  cases hoperation : i.operation? call with
  | some x =>
    obtain ⟨other, operation⟩ := x
    obtain ⟨s', hacts, -⟩ := acts_of_operation? hoperation
    rw [share_of_operation? hoperation]
    -- The operation is one on this region, or leaves it alone.
    by_cases hregion : other = region
    · subst hregion
      cases hacts.before.symm.trans hs
      rw [if_pos rfl, hacts.after]
      exact .inr rfl
    · rw [if_neg hregion, hacts.others region (Ne.symm hregion)]
      exact .inr hs
  | none =>
    rw [share_of_operation?_none hoperation]
    exact (passive_of_operation?_none hoperation).kept hs

/-- Nothing is done on a region that is not there. -/
theorem share_of_session?_none (hnone : i.session? region = none) (call : Call) :
    i.share region call = [] := by
  cases hoperation : i.operation? call with
  | some x =>
    obtain ⟨s, hacts, -⟩ := acts_of_operation? hoperation
    rw [share_of_operation? hoperation, if_neg]
    intro heq
    rw [← heq, hacts.before] at hnone
    cases hnone
  | none => exact share_of_operation?_none hoperation region

/-- A region that was not there before a call was created by it. -/
theorem new_of_step (hnone : i.session? region = none)
    (hs : (i.step call).2.session? region = some s) :
    region = i.sessions.size + 1 ∧
      ∃ size align, call = .create size align true ∧ Session.create { size, align } = .ok s := by
  cases hoperation : i.operation? call with
  | some x =>
    obtain ⟨s', hacts, -⟩ := acts_of_operation? hoperation
    have hregion : region ≠ x.1 := by
      intro heq
      rw [heq, hacts.before] at hnone
      cases hnone
    rw [hacts.others region hregion, hnone] at hs
    cases hs
  | none => exact (passive_of_operation?_none hoperation).new hnone hs

/-- What is orderly for the interface is so for each of its regions. -/
theorem orderly_share (hs : i.session? region = some s) {rest : List Call}
    (horderly : i.Orderly (call :: rest)) : s.Orderly (i.share region call) := by
  cases hoperation : i.operation? call with
  | some x =>
    obtain ⟨other, operation⟩ := x
    rw [share_of_operation? hoperation]
    split
    next heq => exact ⟨horderly.1 _ hoperation s (by rw [heq]; exact hs), trivial⟩
    next => trivial
  | none =>
    rw [share_of_operation?_none hoperation]
    trivial

/-- After any calls, a region that was there is in the state that its operations
    have brought it to, and any other one has been created meanwhile. -/
theorem session?_run {calls : List Call} {s' : Session}
    (hs' : (i.run calls).session? region = some s') :
    (∃ s, i.session? region = some s ∧ (s.run (i.script region calls)).2 = s' ∧
        (i.Orderly calls → s.Orderly (i.script region calls))) ∨
      i.sessions.size < region ∧ ∃ size align start, .create size align true ∈ calls ∧
        Session.create { size, align } = .ok start ∧
        (start.run (i.script region calls)).2 = s' ∧
        (i.Orderly calls → start.Orderly (i.script region calls)) := by
  induction calls generalizing i with
  | nil => exact .inl ⟨s', hs', rfl, fun _ => trivial⟩
  | cons call rest ih =>
    cases hs : i.session? region with
    | some s =>
      -- The region that is there at the end is this one: its handle is not given out again.
      rcases ih hs' with ⟨s₁, hs₁, hrun, horderly⟩ | ⟨hlt, -⟩
      · rcases session?_step hs call with hnone | hsome
        · cases hnone.symm.trans hs₁
        · cases hsome.symm.trans hs₁
          refine .inl ⟨s, rfl, ?_, fun hall => ?_⟩
          · rw [script, Session.run_append]
            exact hrun
          · rw [script, Session.orderly_append]
            exact ⟨orderly_share hs hall, horderly hall.2⟩
      · have hnone := session?_of_size_lt (Nat.lt_of_le_of_lt (i.size_step call) hlt)
        cases hs.symm.trans hnone
    | none =>
      -- Nothing is done on a region before it has been created.
      rw [script, share_of_session?_none hs, List.nil_append]
      rcases ih hs' with
        ⟨s₁, hs₁, hrun, horderly⟩ | ⟨hlt, size, align, start, hcall, hcreate, hrun, hall⟩
      · obtain ⟨rfl, size, align, rfl, hcreate⟩ := new_of_step hs hs₁
        exact .inr ⟨Nat.lt_succ_self _, size, align, s₁, List.mem_cons_self, hcreate, hrun,
          fun h => horderly h.2⟩
      · have hlt := Nat.lt_of_le_of_lt (i.size_step call) hlt
        exact .inr ⟨hlt, size, align, start, List.mem_cons_of_mem _ hcall, hcreate, hrun,
          fun h => hall h.2⟩

/-! ## What becomes of a transaction handle -/

theorem locate?_of_le {x : Nat × Handle} (hn : i.locate? n = some x)
    (hgrows : i'.transactions = i.transactions ∨
      ∃ y, i'.transactions = i.transactions.push y) : i'.locate? n = some x := by
  cases n with
  | zero => cases hn
  | succ m =>
    rcases hgrows with hsame | ⟨y, hpush⟩
    · simpa [locate?, hsame] using hn
    · have hlt : m < i.transactions.size := (Array.getElem?_eq_some_iff.1 hn).1
      simpa [locate?, hpush, Array.getElem?_push_lt, hlt] using hn

/-- A handle is that of the same transaction for ever. -/
theorem locate?_step {x : Nat × Handle} (hn : i.locate? n = some x) (call : Call) :
    (i.step call).2.locate? n = some x := by
  cases hoperation : i.operation? call with
  | some y =>
    obtain ⟨s, hacts, -⟩ := acts_of_operation? hoperation
    exact locate?_of_le hn (hacts.transactions.imp_right fun ⟨h, _, hpush⟩ => ⟨_, hpush⟩)
  | none => exact locate?_of_le hn (.inl (passive_of_operation?_none hoperation).transactions_eq)

theorem locate?_run {x : Nat × Handle} (hn : i.locate? n = some x) (calls : List Call) :
    (i.run calls).locate? n = some x := by
  induction calls generalizing i with
  | nil => exact hn
  | cons call rest ih => exact ih (locate?_step hn call)

end Interface

end TransactionalMemory
