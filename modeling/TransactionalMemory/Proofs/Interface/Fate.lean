import TransactionalMemory.Proofs.Interface.Calls
import TransactionalMemory.Proofs.Session.Grants
import TransactionalMemory.Proofs.Session.Likeness
import TransactionalMemory.Proofs.Session.Rollback

/-! # What a caller learns of a transaction

    A caller is told success or failure, and of an allocation whether there was
    no memory. That is enough to know what will become of the transaction:

    1. A call on a transaction that goes on reports failure if and only if the
       transaction is doomed afterwards. Want of memory is no failure: the
       transaction is not doomed then, and whatever comes later comes as it would
       have come without the call.
    2. Doom lasts. Whatever is done in between, every later call on the handle
       fails, and so does the end of the transaction.
    3. The end of a doomed transaction takes back all that it did. -/

namespace TransactionalMemory

namespace Interface

variable {i i' : Interface} {call : Call} {region n : Nat} {s : Session} {h : Handle}
  {t t' : Transaction}

/-! ## Live transactions -/

def live? (i : Interface) (n : Nat) : Option Transaction :=
  (i.transaction? n).bind fun (_, s, h) => s.open? h

theorem live?_eq_some_iff : i.live? n = some t ↔
    ∃ region s h, i.transaction? n = some (region, s, h) ∧ s.open? h = some t := by
  simp [live?, Option.bind_eq_some_iff]

theorem live?_eq_none_iff : i.live? n = none ↔ i.transaction? n = none := by
  constructor
  · intro hlive
    cases htransaction : i.transaction? n with
    | none => rfl
    | some x =>
      obtain ⟨region, s, h⟩ := x
      obtain ⟨t, ho⟩ := Option.isSome_iff_exists.1 (transaction?_eq_some_iff.1 htransaction).2.2
      cases hlive.symm.trans (live?_eq_some_iff.2 ⟨region, s, h, htransaction, ho⟩)
  · intro htransaction
    simp [live?, htransaction]

/-- A handle that has not been given out is that of no transaction. -/
theorem live?_of_size_lt (hlt : i.transactions.size < n) : i.live? n = none := by
  have hlocated : i.locate? n = none := by
    cases n with
    | zero => rfl
    | succ m => exact Array.getElem?_eq_none (Nat.le_of_lt_succ hlt)
  simp [live?, transaction?, hlocated]

/-- Who is open after the operation of a call has the same handle as before. -/
theorem transaction?_of_acts {operation : Operation} (hlocated : i.locate? n = some (region, h))
    (hacts : i.Acts region s operation i') (ho' : (s.step operation).2.open? h = some t') :
    i'.transaction? n = some (region, (s.step operation).2, h) :=
  transaction?_eq_some_iff.2
    ⟨locate?_of_le hlocated (hacts.transactions.imp_right fun ⟨h, _, hpush⟩ => ⟨_, hpush⟩),
      hacts.after, by rw [ho']; rfl⟩

/-! ## Failure and doom -/

/-- A call says what becomes of the transaction if the answer of its operation does. -/
theorem fails_iff_of_operation? (operation : Operation)
    (hoperation : i.operation? call = some (region, operation))
    (htransaction : i.transaction? n = some (region, s, h))
    (ho' : (s.step operation).2.open? h = some t')
    (hreport : i.report call (s.step operation).1 = call.failure ↔ t'.doomed = true) :
    ∃ t', (i.step call).2.live? n = some t' ∧
      ((i.step call).1 = call.failure ↔ t'.doomed = true) := by
  obtain ⟨hlocated, hs, -⟩ := transaction?_eq_some_iff.1 htransaction
  obtain ⟨hacts, hreply⟩ := acts_of_session? call hoperation hs
  rw [hreply]
  exact ⟨t', live?_eq_some_iff.2 ⟨region, _, h, transaction?_of_acts hlocated hacts ho', ho'⟩,
    hreport⟩

/-- So it is with an operation that is one of the transaction alone. -/
theorem fails_iff_of_access {α : Type} {operation : Operation}
    (access : Transaction → Region → Outcome α)
    (hoperation : i.operation? call = some (region, operation))
    (htransaction : i.transaction? n = some (region, s, h)) (ho : s.open? h = some t)
    (hstep : (s.step operation).2 = (s.access h access).2)
    (hreport : i.report call (s.step operation).1 = call.failure ↔
      (access t s.region).transaction.doomed = true) :
    ∃ t', (i.step call).2.live? n = some t' ∧
      ((i.step call).1 = call.failure ↔ t'.doomed = true) := by
  refine fails_iff_of_operation? operation hoperation htransaction ?_ hreport
  rw [hstep, Session.access_of_open access ho]
  exact Session.open?_put_self ho

/-- A transaction that goes on is doomed after a call if and only if the call fails. -/
theorem fails_iff_doomed (hlive : i.live? n = some t) (hcall : call.transaction? = some n)
    (hends : call ≠ .finish n) :
    ∃ t', (i.step call).2.live? n = some t' ∧
      ((i.step call).1 = call.failure ↔ t'.doomed = true) := by
  obtain ⟨region, s, h, htransaction, ho⟩ := live?_eq_some_iff.1 hlive
  have hwithin := within_of_transaction? htransaction
  -- Without its buffer, a call dooms the transaction and fails.
  have hgivesUp : (s.step (.abort h)).2.open? h = some t.doom := by
    rw [Session.step, Session.abort, ho]
    exact Session.open?_put_self ho
  cases call with
  | read n a length hasBuffer =>
    cases hcall
    cases hasBuffer with
    | false =>
      exact fails_iff_of_operation? _ (hwithin _) htransaction hgivesUp
        ⟨fun _ => rfl, fun _ => rfl⟩
    | true =>
      refine fails_iff_of_access (·.read · a length) (hwithin fun h => .read h a length)
        htransaction ho rfl ?_
      rcases t.settles_read s.region a length with ⟨⟨v, hv⟩, hd⟩ | ⟨⟨e, he⟩, hd⟩ <;>
        simp [Session.step, Session.read, Session.access_of_open _ ho, report, Call.failure, *]
  | write n a buffer =>
    cases hcall
    cases buffer with
    | none =>
      exact fails_iff_of_operation? _ (hwithin _) htransaction hgivesUp
        ⟨fun _ => rfl, fun _ => rfl⟩
    | some bytes =>
      refine fails_iff_of_access (·.write · a bytes) (hwithin fun h => .write h a bytes)
        htransaction ho rfl ?_
      rcases t.settles_write s.region a bytes with ⟨⟨v, hv⟩, hd⟩ | ⟨⟨e, he⟩, hd⟩ <;>
        simp [Session.step, Session.write, Session.access_of_open _ ho, report, Call.failure, *]
  | alloc n size hasBuffer memory =>
    cases hcall
    cases hasBuffer with
    | false =>
      exact fails_iff_of_operation? _ (hwithin _) htransaction hgivesUp
        ⟨fun _ => rfl, fun _ => rfl⟩
    | true =>
      refine fails_iff_of_access (·.alloc · size memory) (hwithin fun h => .alloc h size memory)
        htransaction ho rfl ?_
      cases t.settles_alloc s.region size memory with
      | granted succeeds =>
        obtain ⟨⟨v, hv⟩, hd⟩ := succeeds
        simp [Session.step, Session.alloc, Session.access_of_open _ ho, report, Call.failure, *]
      | exhausted undoomed attempt outcome =>
        simp [Session.step, Session.alloc, Session.access_of_open _ ho, report, Call.failure, *]
      | failed fails other =>
        -- The failure is not want of memory, so it is reported as failure.
        obtain ⟨⟨e, he⟩, hd⟩ := fails
        cases e <;>
          simp_all [Session.step, Session.alloc, Session.access_of_open _ ho, report,
            Call.failure]
  | free n a =>
    cases hcall
    refine fails_iff_of_access (·.free · a) (hwithin fun h => .free h a) htransaction ho rfl ?_
    rcases t.settles_free s.region a with ⟨⟨v, hv⟩, hd⟩ | ⟨⟨e, he⟩, hd⟩ <;>
      simp [Session.step, Session.free, Session.access_of_open _ ho, report, Call.failure, *]
  | finish m =>
    cases hcall
    exact absurd rfl hends
  | create size align memory => cases hcall
  | destroy region => cases hcall
  | start region => cases hcall
  | size region => cases hcall
  | align region => cases hcall
  | begin region readOnly => cases hcall

/-! ## Allocations -/

/-- What an allocation of a live transaction comes to. -/
inductive Allocation (i : Interface) (n : Nat) (t : Transaction) (size : Nat) (memory : Bool) :
    Prop where
  | granted {region : Nat} {s : Session} {h : Handle} {a : Address}
      (found : i.transaction? n = some (region, s, h))
      (value : (s.alloc h size memory).1 = some (.ok a))
      (reply : (i.step (.alloc n size true memory)).1 = .code .success (some a))
      (after : (i.step (.alloc n size true memory)).2.transaction? n =
        some (region, (s.alloc h size memory).2, h))
  | exhausted {region : Nat} {s s' : Session} {h : Handle}
      (found : i.transaction? n = some (region, s, h)) (isOpen : s.open? h = some t)
      (undoomed : t.doomed = false) (alike : s.Alike s') (unchanged : memory = true → s' = s)
      (outcome : i.step (.alloc n size true memory) =
        (.code .noMemory none, i.setSession region (some s')))
  | failed (reply : (i.step (.alloc n size true memory)).1 = .code .aborted none)

theorem step_alloc (hlive : i.live? n = some t) (size : Nat) (memory : Bool) :
    i.Allocation n t size memory := by
  obtain ⟨region, s, h, htransaction, ho⟩ := live?_eq_some_iff.1 hlive
  obtain ⟨hlocated, hs, -⟩ := transaction?_eq_some_iff.1 htransaction
  have halloc : s.alloc h size memory = (some (t.alloc s.region size memory).value,
      s.put h (some (t.alloc s.region size memory).transaction)
        (t.alloc s.region size memory).region) := Session.access_of_open _ ho
  cases t.settles_alloc s.region size memory with
  | granted succeeds =>
    obtain ⟨a, ha⟩ := succeeds.value
    rw [ha] at halloc
    have hstep : i.step (.alloc n size true memory)
        = (.code .success (some a), i.setSession region (some (s.alloc h size memory).2)) := by
      simp [step, alloc, access, htransaction, halloc]
    have hvalue : (s.alloc h size memory).1 = some (.ok a) := by rw [halloc]
    have ho' : (s.alloc h size memory).2.open? h =
        some (t.alloc s.region size memory).transaction := by
      rw [halloc]
      exact Session.open?_put_self ho
    have hacts : i.Acts region s (.alloc h size memory)
        (i.setSession region (some (s.alloc h size memory).2)) := acts_setSession hs rfl
    have hafter : (i.step (.alloc n size true memory)).2.transaction? n =
        some (region, (s.alloc h size memory).2, h) := by
      rw [hstep]
      exact transaction?_of_acts hlocated hacts ho'
    exact .granted htransaction hvalue (congrArg Prod.fst hstep) hafter
  | @exhausted r' undoomed attempt outcome =>
    rw [outcome] at halloc
    have hsame : memory = true → s.put h (some t) r' = s := by
      rintro rfl
      rw [Region.eq_of_attempt attempt, Session.put_self ho]
    refine .exhausted htransaction ho undoomed (.of_attempt ho attempt) hsame ?_
    simp [step, alloc, access, htransaction, halloc]
  | failed fails other =>
    obtain ⟨failure, hfailure⟩ := fails.error
    rw [hfailure] at halloc other
    refine .failed ?_
    cases failure <;> simp_all [step, alloc, access]

/-- All of a segment can be used, from the address of its first byte: it reads as
    zeros, it can be written, and it can be freed. -/
structure Usable (i : Interface) (n wordSize size : Nat) (a : Address) : Prop where
  first : a.offset = 0
  reads : ∀ b length, b.slot? = a.slot? →
    Transaction.inBounds wordSize size b.offset length = true →
      (i.step (.read n b length true)).1 = .bytes (some (List.replicate length 0))
  writes : ∀ b bytes, b.slot? = a.slot? →
    Transaction.inBounds wordSize size b.offset bytes.length = true →
      (i.step (.write n b (some bytes))).1 = .flag true
  frees : (i.step (.free n a)).1 = .flag true

theorem usable_of_grants {size : Nat} {memory : Bool} {a : Address}
    (hgrants : s.Grants h size memory a)
    (htransaction : i.transaction? n = some (region, (s.alloc h size memory).2, h)) :
    i.Usable n s.region.wordSize size a := by
  have hs := (transaction?_eq_some_iff.1 htransaction).2.1
  have hwithin := within_of_transaction? htransaction
  constructor
  case first => exact hgrants.first
  case reads =>
    intro b length hb hin
    rw [(acts_of_session? (.read n b length true) (hwithin fun h => .read h b length) hs).2]
    simp [Session.step, report, hgrants.reads b length hb hin]
  case writes =>
    intro b bytes hb hin
    rw [(acts_of_session? (.write n b (some bytes)) (hwithin fun h => .write h b bytes) hs).2]
    simp [Session.step, report, hgrants.writes b bytes hb hin]
  case frees =>
    rw [(acts_of_session? (.free n a) (hwithin fun h => .free h a) hs).2]
    simp [Session.step, report, hgrants.frees]

/-! ## Doom lasts -/

/-- The transaction of a handle is doomed, or it has ended, or its region is gone. -/
def Spent (i : Interface) (n : Nat) : Prop :=
  ∃ region h, i.locate? n = some (region, h) ∧ region ≤ i.sessions.size ∧
    ∀ s, i.session? region = some s →
      h < s.transactions.size ∧ ∀ t, s.open? h = some t → t.doomed = true

theorem le_size_of_session? (hs : i.session? region = some s) : region ≤ i.sessions.size := by
  by_cases hle : region ≤ i.sessions.size
  · exact hle
  · rw [session?_of_size_lt (Nat.lt_of_not_le hle)] at hs
    cases hs

theorem size_run (i : Interface) (calls : List Call) :
    i.sessions.size ≤ (i.run calls).sessions.size := by
  induction calls generalizing i with
  | nil => exact Nat.le_refl _
  | cons call rest ih => exact Nat.le_trans (i.size_step call) (ih _)

theorem spent_of_live? (hlive : i.live? n = some t) (hdoomed : t.doomed = true) : i.Spent n := by
  obtain ⟨region, s, h, htransaction, ho⟩ := live?_eq_some_iff.1 hlive
  obtain ⟨hlocated, hs, -⟩ := transaction?_eq_some_iff.1 htransaction
  refine ⟨region, h, hlocated, le_size_of_session? hs, fun s' hs' => ?_⟩
  cases hs.symm.trans hs'
  refine ⟨Session.lt_size_of_open ho, fun t' ho' => ?_⟩
  cases ho.symm.trans ho'
  exact hdoomed

namespace Spent

theorem doomed (hspent : i.Spent n) (hlive : i.live? n = some t) : t.doomed = true := by
  obtain ⟨region, k, hlocated, -, hdoomed⟩ := hspent
  obtain ⟨region', s, k', htransaction, ho⟩ := live?_eq_some_iff.1 hlive
  obtain ⟨hlocated', hs, -⟩ := transaction?_eq_some_iff.1 htransaction
  cases hlocated.symm.trans hlocated'
  exact (hdoomed s hs).2 t ho

section

variable (hsteady : ∀ region s, i.session? region = some s → s.Steady) (hspent : i.Spent n)

include hsteady hspent

/-- Nothing brings a doomed transaction back. -/
theorem run (calls : List Call) : (i.run calls).Spent n := by
  obtain ⟨region, k, hlocated, hle, hdoomed⟩ := hspent
  refine ⟨region, k, locate?_run hlocated calls, Nat.le_trans hle (i.size_run calls),
    fun s' hs' => ?_⟩
  -- The region is the one that was there: a new one would have a new handle.
  rcases session?_run hs' with ⟨s, hs, rfl, -⟩ | ⟨hlt, -⟩
  · have heffects : Effects False s _ _ :=
      Session.effects_record (hsteady _ _ hs) (i.script region calls) nofun
    obtain ⟨hsize, hopen⟩ := hdoomed s hs
    refine ⟨Nat.lt_of_lt_of_le hsize (Session.size_effects heffects), fun t' ho' => ?_⟩
    obtain ⟨t, ho, hgoes⟩ := Session.open_before heffects hsize ho'
    exact hgoes.doomed (hopen t ho)
  · omega

/-- Whatever is tried with it fails, also its end. -/
theorem fails (hcall : call.transaction? = some n) : (i.step call).1 = call.failure := by
  cases hlive : i.live? n with
  | none => rw [step_of_transaction?_none hcall (live?_eq_none_iff.1 hlive)]
  | some t =>
    by_cases hends : call = .finish n
    · subst hends
      obtain ⟨region, s, k, htransaction, ho⟩ := live?_eq_some_iff.1 hlive
      have hs := (transaction?_eq_some_iff.1 htransaction).2.1
      rw [(acts_of_session? (.finish n) (within_of_transaction? htransaction .finish) hs).2]
      simp [Session.step, Session.finish_of_open ho, hspent.doomed hlive, report, Call.failure]
    · -- The transaction goes on, still doomed, so the call has failed.
      obtain ⟨t', hlive', hiff⟩ := fails_iff_doomed hlive hcall hends
      exact hiff.2 ((hspent.run hsteady [call]).doomed hlive')

end

end Spent

/-- A handle is of no use once a call has failed, or has ended the transaction. -/
theorem spent_of_step (hlive : i.live? n = some t) (hcall : call.transaction? = some n)
    (hlast : (i.step call).1 = call.failure ∨ call = .finish n) : (i.step call).2.Spent n := by
  by_cases hends : call = .finish n
  · subst hends
    obtain ⟨region, s, h, htransaction, ho⟩ := live?_eq_some_iff.1 hlive
    obtain ⟨hlocated, hs, -⟩ := transaction?_eq_some_iff.1 htransaction
    obtain ⟨hacts, -⟩ :=
      acts_of_session? (.finish n) (within_of_transaction? htransaction .finish) hs
    refine ⟨region, h, locate?_step hlocated _, le_size_of_session? hacts.after, fun s' hs' => ?_⟩
    cases hacts.after.symm.trans hs'
    refine ⟨?_, fun t' ho' => ?_⟩
    · rw [Session.step, Session.finish_of_open ho]
      simpa using Session.lt_size_of_open ho
    · cases (s.open?_finish_self h).symm.trans ho'
  · obtain ⟨t', hlive', hiff⟩ := fails_iff_doomed hlive hcall hends
    exact spent_of_live? hlive' (hiff.1 (hlast.resolve_right hends))

end Interface

/-! ## What the end of a doomed transaction takes back -/

namespace Session

variable {settings : Settings} {start : Session} {operations : List Operation} {h : Handle}
  {t : Transaction}

/-- The end of a transaction takes back whatever it has done in the run. -/
structure TakesBack (start : Session) (operations : List Operation) (h : Handle)
    (t : Transaction) : Prop where
  /-- The transaction knows which slots it has allocated and freed. -/
  allocations : t.allocated = start.logged (·.allocatedBy h) [] operations
  frees : t.freed = start.logged (·.freedBy h) [] operations
  rolledBack : t.RolledBack (start.run operations).2.region
    (t.conclude (start.run operations).2.region true).2
  /-- After the end as a whole, the words that are left hold what they held. -/
  ended : ∀ ref x, ((start.run operations).2.finish h).2.region.standing? ref = some x →
    (start.run operations).2.region.standing? ref = some x

theorem takesBack_of_doomed (hcreate : create settings = .ok start)
    (horderly : start.Orderly operations) (hallowed : (start.run operations).2.Allows (.finish h))
    (ho : (start.run operations).2.open? h = some t) (hdoomed : t.doomed = true) :
    start.TakesBack operations h t := by
  have hrec := (Recorded.created hcreate).run operations horderly
  have ha : (start.run operations).2.Accounted :=
    hrec.invariant accounted_of_create fun hs ha e => ha.effect hs e
  have hends : (start.run operations).2.EndsWithoutCommit h true := by
    intro _
    simp [finish_of_open ho, hdoomed]
  have hallowed : (start.run operations).2.Allows (.ending h true) := hallowed
  have hgives := mayGiveUp_of_allows hallowed hends
  have hrolledBack := rolledBack_conclude hrec.sound ho hgives
    (conclude_of_endsWithoutCommit ho hends) ha
  obtain ⟨hallocations, hfrees⟩ := (lists_run hcreate operations horderly h).isOpen t ho
  refine ⟨hallocations, hfrees, hrolledBack, fun ref x hx => ?_⟩
  have hx : ((start.run operations).2.step (.ending h true)).2.region.standing? ref = some x := hx
  rw [← hrolledBack.standing ref]
  exact standing?_of_step_ending ho hx

end Session

namespace Interface

variable {i : Interface} {call : Call} {calls : List Call} {region n : Nat} {s s' : Session}
  {h : Handle} {t : Transaction}

/-! ## Runs -/

theorem run_append (i : Interface) (first second : List Call) :
    i.run (first ++ second) = (i.run first).run second := List.foldl_append ..

theorem orderly_append (first second : List Call) :
    i.Orderly (first ++ second) ↔ i.Orderly first ∧ (i.run first).Orderly second := by
  induction first generalizing i with
  | nil => exact ⟨fun h => ⟨trivial, h⟩, And.right⟩
  | cons call rest ih =>
    rw [List.cons_append, Orderly, Orderly, ih, and_assoc]
    rfl

/-- Whatever regions there are have been created in the run. -/
theorem created_of_run (hs : (run {} calls).session? region = some s) :
    ∃ size align start, .create size align true ∈ calls ∧
      Session.create { size, align } = .ok start ∧
      (start.run (script {} region calls)).2 = s ∧
      (Orderly {} calls → start.Orderly (script {} region calls)) := by
  rcases session?_run hs with ⟨s₀, hs₀, -⟩ | ⟨-, hcreated⟩
  · cases region <;> simp [session?] at hs₀
  · exact hcreated

theorem steady_of_run (hs : (run {} calls).session? region = some s) : s.Steady := by
  obtain ⟨size, align, start, -, hcreate, rfl, -⟩ := created_of_run hs
  have hsteady := Session.steady_of_create hcreate
  have heffects : Effects False start _ _ :=
    Session.effects_record hsteady (script {} region calls) nofun
  exact hsteady.effects heffects

/-- No more transactions are begun than there are calls. -/
theorem size_transactions_run (i : Interface) (calls : List Call) :
    (i.run calls).transactions.size ≤ i.transactions.size + calls.length := by
  induction calls generalizing i with
  | nil => exact Nat.le_refl _
  | cons call rest ih =>
    have hstep : (i.step call).2.transactions.size ≤ i.transactions.size + 1 := by
      cases hoperation : i.operation? call with
      | some x =>
        obtain ⟨s, hacts, -⟩ := acts_of_operation? hoperation
        rcases hacts.transactions with hsame | ⟨h, -, hpush⟩
        · rw [hsame]
          exact Nat.le_succ _
        · rw [hpush, Array.size_push]
      | none =>
        rw [(passive_of_operation?_none hoperation).transactions_eq]
        exact Nat.le_succ _
    have hrest := ih (i.step call).2
    show ((i.step call).2.run rest).transactions.size ≤ i.transactions.size + (rest.length + 1)
    omega

theorem isInner_of_operation? {operation : Operation}
    (hoperation : i.operation? call = some (region, operation)) (hcall : ∀ n, call ≠ .finish n) :
    operation.isInner = true := by
  cases call with
  | begin region' readOnly =>
    obtain ⟨s, -, heq⟩ := Option.map_eq_some_iff.1 hoperation
    cases heq
    rfl
  | finish n => exact absurd rfl (hcall n)
  | read n a length hasBuffer =>
    cases hasBuffer <;> simp only [operation?, within_eq_some_iff] at hoperation <;>
      obtain ⟨s, h, -, rfl⟩ := hoperation <;> rfl
  | write n a buffer =>
    cases buffer <;> simp only [operation?, within_eq_some_iff] at hoperation <;>
      obtain ⟨s, h, -, rfl⟩ := hoperation <;> rfl
  | alloc n size hasBuffer memory =>
    cases hasBuffer <;> simp only [operation?, within_eq_some_iff] at hoperation <;>
      obtain ⟨s, h, -, rfl⟩ := hoperation <;> rfl
  | free n a =>
    simp only [operation?, within_eq_some_iff] at hoperation
    obtain ⟨s, h, -, rfl⟩ := hoperation
    rfl
  | create size align memory => cases hoperation
  | destroy region => cases hoperation
  | start region => cases hoperation
  | size region => cases hoperation
  | align region => cases hoperation

/-- No call but an end changes what stands in the words of a region. -/
theorem stands_of_step (hcall : ∀ n, call ≠ .finish n) (hs : i.session? region = some s)
    (hs' : (i.step call).2.session? region = some s') : s.region.Stands s'.region := by
  rcases session?_step hs call with hnone | hsome
  · cases hnone.symm.trans hs'
  cases hsome.symm.trans hs'
  cases hoperation : i.operation? call with
  | none =>
    rw [share_of_operation?_none hoperation]
    exact .refl _
  | some x =>
    rw [share_of_operation? hoperation]
    split
    · exact s.stands_step (isInner_of_operation? hoperation hcall)
    · exact .refl _

/-! ## Everything that a call reports -/

/-- What a call does to the regions and transactions that there are, and what it
    reports. -/
structure Reports (i : Interface) (call : Call) : Prop where
  /-- The operation that the call comes to is done, and its answer is reported. -/
  acts : ∀ region operation, i.operation? call = some (region, operation) →
    ∃ s, i.Acts region s operation (i.step call).2 ∧
      (i.step call).1 = i.report call (s.step operation).1
  passive : i.operation? call = none → i.Passive call (i.step call)
  /-- Without its region or a live transaction, the call fails and changes nothing. -/
  withoutRegion : ∀ region, call.region? = some region → i.session? region = none →
    i.step call = (call.failure, i)
  withoutTransaction : ∀ n, call.transaction? = some n → i.live? n = none →
    i.step call = (call.failure, i)
  /-- A transaction that goes on is doomed afterwards if and only if the call fails. -/
  fate : ∀ n t, call.transaction? = some n → i.live? n = some t → call ≠ .finish n →
    ∃ t', (i.step call).2.live? n = some t' ∧
      ((i.step call).1 = call.failure ↔ t'.doomed = true)
  /-- Without memory, the transaction goes on as it was, and whatever is to come
      was to come before. If there was memory for the buffers, and it was the
      region that had no room, nothing has changed at all. -/
  noMemory : ∀ x, (i.step call).1 = .code .noMemory x →
    ∃ n size memory region s s' h t, call = .alloc n size true memory ∧ x = none ∧
      i.transaction? n = some (region, s, h) ∧ s.open? h = some t ∧ t.doomed = false ∧
      (i.step call).2 = i.setSession region (some s') ∧ s.Indistinct s' ∧
      (memory = true → (i.step call).2 = i)
  /-- An allocation that succeeds stores the address of a new segment. -/
  success : ∀ x, (i.step call).1 = .code .success x →
    ∃ n size region s h a slot, call = .alloc n size true true ∧ x = some a ∧
      i.transaction? n = some (region, s, h) ∧
      a.slot? = some slot ∧ s.region.table.lookup slot = .vacant ∧
      (i.step call).2.Usable n s.region.wordSize size a
  /-- Before the end of a transaction, nothing that stands in a word changes. -/
  quiet : (∀ n, call ≠ .finish n) → ∀ region s s', i.session? region = some s →
    (i.step call).2.session? region = some s' → s.region.Stands s'.region

/-- Only an allocation for a live transaction can come to more than failure. -/
theorem alloc_of_code {code : AllocCode} {x : Option Address}
    (hreply : (i.step call).1 = .code code x) (hcode : code ≠ .aborted) :
    ∃ n size memory t, call = .alloc n size true memory ∧ i.live? n = some t := by
  cases call with
  | alloc n size hasBuffer memory =>
    cases hlive : i.live? n with
    | some t =>
      cases hasBuffer with
      | true => exact ⟨n, size, memory, t, rfl, hlive⟩
      | false =>
        cases hreply
        exact absurd rfl hcode
    | none =>
      rw [step_of_transaction?_none rfl (live?_eq_none_iff.1 hlive)] at hreply
      cases hreply
      exact absurd rfl hcode
  | create size align memory => cases hreply
  | destroy region => cases hreply
  | start region => cases hreply
  | size region => cases hreply
  | align region => cases hreply
  | begin region readOnly => cases hreply
  | finish n => cases hreply
  | read n a length hasBuffer => cases hreply
  | write n a buffer => cases hreply
  | free n a => cases hreply

theorem reports (hrec : ∀ region s, i.session? region = some s → ∃ hist, Recorded hist s)
    (call : Call) : i.Reports call where
  acts _ _ hoperation := acts_of_operation? hoperation
  passive := passive_of_operation?_none
  withoutRegion _ := step_of_session?_none
  withoutTransaction _ hcall hlive :=
    step_of_transaction?_none hcall (live?_eq_none_iff.1 hlive)
  fate _ _ hcall hlive hends := fails_iff_doomed hlive hcall hends
  noMemory := by
    intro x hreply
    obtain ⟨n, size, memory, t, rfl, hlive⟩ := alloc_of_code hreply (by nofun)
    cases step_alloc hlive size memory with
    | granted found value reply after => cases reply.symm.trans hreply
    | @exhausted region s s' h found isOpen undoomed alike unchanged outcome =>
      rw [outcome] at hreply ⊢
      cases hreply
      refine ⟨n, size, memory, region, s, s', h, t, rfl, rfl, found, isOpen, undoomed, rfl,
        alike.indistinct, fun henough => ?_⟩
      rw [unchanged henough]
      exact setSession_self (transaction?_eq_some_iff.1 found).2.1
    | failed reply => cases reply.symm.trans hreply
  success := by
    intro x hreply
    obtain ⟨n, size, memory, t, rfl, hlive⟩ := alloc_of_code hreply (by nofun)
    cases step_alloc hlive size memory with
    | @granted region s h a found value reply after =>
      cases reply.symm.trans hreply
      obtain ⟨hist, hrecorded⟩ := hrec region s (transaction?_eq_some_iff.1 found).2.1
      obtain ⟨settings, hpermanent⟩ : ∃ settings, s.Permanent settings :=
        hrecorded.invariant (P := fun s => ∃ settings, s.Permanent settings)
          (fun hcreate => ⟨_, .of_create hcreate⟩)
          fun hs ⟨settings, hp⟩ e => ⟨settings, hp.effect hs e⟩
      have hgrants := Session.grants_of_alloc hrecorded.sound hrecorded.represents hpermanent value
      obtain ⟨slot, hslot, hvacant⟩ := hgrants.fresh
      have husable := usable_of_grants hgrants after
      cases hgrants.enough
      exact ⟨n, size, region, s, h, a, slot, rfl, rfl, found, hslot, hvacant, husable⟩
    | exhausted found isOpen undoomed alike unchanged outcome =>
      rw [outcome] at hreply
      cases hreply
    | failed reply => cases reply.symm.trans hreply
  quiet hcall _ _ _ hs hs' := stands_of_step hcall hs hs'

/-- What a call reports after the calls before it, and what it does. -/
structure Faithful (before : List Call) (call : Call) : Prop
    extends (run {} before).Reports call where
  /-- Every region is in the state that its own operations have brought it to. -/
  regions : ∀ region s, (run {} (before ++ [call])).session? region = some s →
    ∃ size align start, .create size align true ∈ before ++ [call] ∧
      Session.create { size, align } = .ok start ∧
      (start.run (script {} region (before ++ [call]))).2 = s
  /-- The handles that are none are those of no region and of no transaction. -/
  nullHandles : (run {} before).session? nullRegion = none ∧ (run {} before).live? 0 = none ∧
    (before.length < invalidTransaction → (run {} before).live? invalidTransaction = none)
  /-- After a call that has failed, or has ended the transaction, the transaction
      is doomed for as long as it is live, and every call fails. -/
  lasting : ∀ earlier first middle n t, before = earlier ++ first :: middle →
    first.transaction? = some n → (run {} earlier).live? n = some t →
    ((run {} earlier).step first).1 = first.failure ∨ first = .finish n →
      (∀ t', (run {} before).live? n = some t' → t'.doomed = true) ∧
        (call.transaction? = some n → ((run {} before).step call).1 = call.failure)
  /-- The end of a doomed transaction takes back all that it did. -/
  takesBack : ∀ n t, call = .finish n → (run {} before).live? n = some t → t.doomed = true →
    ∃ region s h size align start, (run {} before).transaction? n = some (region, s, h) ∧
      Session.create { size, align } = .ok start ∧ (start.run (script {} region before)).2 = s ∧
      start.TakesBack (script {} region before) h t

/-- Each call of an orderly run reports what has become of its transaction, and
    the regions go through what their operations do. -/
theorem run_faithful (calls : List Call) (horderly : Orderly {} calls) :
    ∀ before call, before ++ [call] <+: calls → Faithful before call := by
  rintro before call ⟨after, rfl⟩
  obtain ⟨hall, -⟩ := (orderly_append _ after).1 horderly
  obtain ⟨hbefore, hcall, -⟩ := (orderly_append before [call]).1 hall
  have hrec : ∀ region s, (run {} before).session? region = some s → ∃ hist, Recorded hist s := by
    intro region s hs
    obtain ⟨size, align, start, -, hcreate, rfl, hall⟩ := created_of_run hs
    exact ⟨_, (Recorded.created hcreate).run _ (hall hbefore)⟩
  refine { reports hrec call with
    regions := ?regions, nullHandles := ?nullHandles, lasting := ?lasting, takesBack := ?takesBack }
  case regions =>
    intro region s hs
    obtain ⟨size, align, start, hcall, hcreate, hrun, -⟩ := created_of_run hs
    exact ⟨size, align, start, hcall, hcreate, hrun⟩
  case nullHandles =>
    refine ⟨rfl, rfl, fun hfew => live?_of_size_lt (Nat.lt_of_le_of_lt ?_ hfew)⟩
    simpa using size_transactions_run {} before
  case lasting =>
    rintro earlier first middle n t rfl hfirst hlive hlast
    have hspent : (run {} (earlier ++ [first])).Spent n := by
      rw [run_append]
      exact spent_of_step hlive hfirst hlast
    have hstill := hspent.run (fun _ _ => steady_of_run) middle
    rw [← run_append, List.append_assoc] at hstill
    exact ⟨fun _ => hstill.doomed, hstill.fails fun _ _ => steady_of_run⟩
  case takesBack =>
    rintro n t rfl hlive hdoomed
    obtain ⟨region, s, h, htransaction, ho⟩ := live?_eq_some_iff.1 hlive
    have hs := (transaction?_eq_some_iff.1 htransaction).2.1
    obtain ⟨size, align, start, -, hcreate, rfl, hall⟩ := created_of_run hs
    have hallowed := hcall _ (within_of_transaction? htransaction .finish) _ hs
    exact ⟨region, _, h, size, align, start, htransaction, hcreate, rfl,
      Session.takesBack_of_doomed hcreate (hall hbefore) hallowed ho hdoomed⟩

/-- One transaction allocates a segment, and finds no memory for a second one and
    no room for a third one. It claims a word, and brings no buffer for a read.
    Another transaction reads the word. -/
def brokenOff : List Call :=
  [.create 8 8 true, .begin 1 false, .alloc 1 8 true true, .alloc 1 8 true false,
    .alloc 1 (1 <<< 50) true true,
    .write 1 Region.start (some [1, 2, 3, 4, 5, 6, 7, 8]), .read 1 Region.start 8 false,
    .write 1 Region.start (some [1, 2, 3, 4, 5, 6, 7, 8]), .alloc 1 8 true true, .finish 1,
    .free 1 (.ofParts 1 0), .begin 1 false, .read 2 Region.start 8 true, .finish 2, .begin 0 true]

def replies (i : Interface) : List Call → List Reply
  | [] => []
  | call :: rest => (i.step call).1 :: (i.step call).2.replies rest

theorem run_faithful_broken_off :
    Orderly {} brokenOff ∧
      replies {} brokenOff =
        [.handle 1, .handle 1, .code .success (some (.ofParts 1 0)), .code .noMemory none,
          .code .noMemory none, .flag true, .bytes none, .flag false, .code .aborted none,
          .flag false, .flag false, .handle 2, .bytes (some (List.replicate 8 0)), .flag true,
          .handle invalidTransaction] ∧
      ∀ before call, before ++ [call] <+: brokenOff → Faithful before call := by
  have horderly : Orderly {} brokenOff := by decide +kernel
  exact ⟨horderly, by decide +kernel, run_faithful brokenOff horderly⟩

end Interface

end TransactionalMemory
