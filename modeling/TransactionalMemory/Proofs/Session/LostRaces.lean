import TransactionalMemory.Proofs.Session.Scripts
import TransactionalMemory.Proofs.Session.StaleAddress

/-! # Losing a race

    Two transactions follow the same address, and one of them frees the segment
    and commits. Whether the other one is told so in a way that makes
    `atomically` try again depends on how it has read the address: it is, as
    long as what it read still counts, and it is not, if that is outdated. -/

namespace TransactionalMemory

variable {α σ : Type}

/-- In an attempt the words hold addresses as they should; and if it returns an
    invalid address, then one of its operations did that followed an address
    which the transaction had obtained. -/
structure Attempt.Disciplined (stores : WordRef → List UInt8 → Address → Prop) (x : Attempt)
    (script : Script α) : Prop where
  addresses : ∀ before, before <+: script.operations x.session →
    (x.session.run before).2.AddressesHold stores (x.session.run before).2.InUse
  invalid : ∀ b, script.result x.session = .error (.invalidAddress b) →
    ∃ before operation ref bytes past,
      before ++ [operation] <+: script.operations x.session ∧
      ((x.session.run before).2.step operation).1.failure? = some (.invalidAddress b) ∧
      Session.Through stores (x.session.record x.hist before) (x.session.run before).2 x.handle b
        ref bytes past operation

namespace Session

variable {s : Session} {h : Handle} {t : Transaction} {hist past : History}
  {stores : WordRef → List UInt8 → Address → Prop} {b : Address} {ref : WordRef}
  {bytes : List UInt8} {failure : Failure}

/-- Only an open transaction gets a failure from an operation. -/
theorem isOpen_of_failure {operation : Operation} (huses : Uses s h b operation)
    (hfailure : (s.step operation).1.failure? = some failure) : ∃ t, s.open? h = some t := by
  cases ho : s.open? h with
  | some t => exact ⟨t, rfl⟩
  | none =>
    cases huses with
    | read inside => simp [step, read, access, ho, Answer.failure?] at hfailure
    | write inside => simp [step, write, access, ho, Answer.failure?] at hfailure
    | free freeable => simp [step, free, access, ho, Answer.failure?] at hfailure

/-- The transaction of an attempt can write for as long as it is open. -/
theorem readWrite_of_attempt {script : Nat → Handle → Script α} {limit k : Nat} {x : Attempt}
    (hx : Attempt.Of script limit k hist s x) (htracks : Tracks hist s)
    {operations : List Operation} (ho : (x.session.run operations).2.open? x.handle = some t) :
    t.isReadOnly = false := by
  obtain ⟨t₀, ho₀, hrw⟩ := hx.isOpen
  have heffects : Effects False x.session _ _ :=
    effects_record (hx.tracks htracks).steady operations nofun
  rw [Transaction.isReadOnly, (continues_effects heffects ho₀ ho).mode_eq]
  exact hrw

/-- In an attempt that returns an invalid address, the transaction has met a word
    that was outdated. -/
theorem outdated_of_attempt {script : Nat → Handle → Script α} {limit k : Nat} {x : Attempt}
    (hx : Attempt.Of script limit k hist s x) (htracks : Tracks hist s)
    (hdisciplined : x.Disciplined stores (script x.number x.handle))
    (hresult : (script x.number x.handle).result x.session = .error (.invalidAddress b)) :
    ∃ before t ref bytes past, before <+: (script x.number x.handle).operations x.session ∧
      (x.session.run before).2.open? x.handle = some t ∧
      Obtained stores (x.session.record x.hist before) x.handle b ref bytes past ∧
      (x.session.run before).2.Outdated t ref bytes past := by
  obtain ⟨before, operation, ref, bytes, past, hprefix, hfailure, hthrough⟩ :=
    hdisciplined.invalid b hresult
  -- The session right before the operation that failed.
  have hbefore := (List.prefix_append before [operation]).trans hprefix
  have hmoment := (hx.tracks htracks).run before
  obtain ⟨t, ho⟩ := isOpen_of_failure hthrough.uses hfailure
  refine ⟨before, t, ref, bytes, past, hbefore, ho, hthrough.obtained, ?_⟩
  have hstep := step_through hmoment.steady ho (readWrite_of_attempt hx htracks ho) hthrough
    fun i hi => outdated_of_unoccupied hmoment ho (hdisciplined.addresses before hbefore)
      hthrough.obtained hi
  rcases hstep with hok | ⟨failure, heq, hretryable | ⟨-, houtdated⟩⟩
  · -- An operation that succeeds returns no failure.
    rw [Answer.failure?_of_isOk hok] at hfailure
    cases hfailure
  · rw [hfailure] at heq
    cases heq
    cases hretryable
  · exact houtdated

/-! ## Words that are addresses -/

/-- The address that a word holds, if it is one: its first eight bytes. -/
def addressOf (bytes : List UInt8) : Address :=
  ⟨UInt64.ofNat (LittleEndian.decode (bytes.take 8))⟩

/-- Every word is an address. -/
def StoresOne (_ : WordRef) (bytes : List UInt8) (a : Address) : Prop := a = addressOf bytes

theorem addressesHold_storesOne_iff {kept : Nat → Prop} : s.AddressesHold StoresOne kept ↔
    ∀ n < s.region.segments.size, kept n →
      ∀ w < (s.region.segment? n).elim 0 Segment.words,
        ∀ bytes ∈ s.region.committed? ⟨n, w⟩, ∀ i ∈ (addressOf bytes).slot?,
          (s.region.table.lookup i).isOccupied = true := by
  constructor
  · intro hholds n _ hkept w _ bytes hbytes i hi
    exact hholds ⟨n, w⟩ bytes _ i hkept hbytes rfl hi
  · intro hall ref bytes a i hkept hbytes ha hi
    subst ha
    have hcell := hbytes
    rw [Region.committed?_eq] at hcell
    obtain ⟨c, hc, -⟩ := Option.map_eq_some_iff.1 hcell
    obtain ⟨seg, hseg, hw, -⟩ := Region.cell?_eq_some_iff.1 hc
    exact hall ref.segment (Region.lt_size_of_cell? hc) hkept ref.word (by rw [hseg]; exact hw)
      bytes hbytes i hi

instance (s : Session) (kept : Nat → Prop) [DecidablePred kept] :
    Decidable (s.AddressesHold StoresOne kept) :=
  decidable_of_iff _ addressesHold_storesOne_iff.symm

instance (s : Session) : DecidablePred s.InUse := fun _ => inferInstance

/-- What has to be computed to see that a read follows an obtained address. -/
theorem through_read {i : Nat} (hread : .accessed h (.read ref bytes) :: past <:+ hist)
    (hunwritten : past.lastWrite h ref = none) (ha : (addressOf bytes).slot? = some i)
    (hb : b.slot? = some i) (hfreed : (s.open? h).map Transaction.freed = some [])
    (hinside : s.Inside b 8) :
    Through StoresOne hist s h b ref bytes past (.read h b 8) where
  obtained := ⟨hread, hunwritten, _, i, rfl, ha, hb⟩
  unfreed := by
    intro t j ho _ hmem
    rw [ho] at hfreed
    rw [Option.some.inj hfreed] at hmem
    cases hmem
  uses := .read hinside

/-- What holds after every number of operations holds after every part of a run. -/
theorem forall_initial {P : List Operation → Prop} {operations : List Operation}
    (h : ∀ k < operations.length + 1, P (operations.take k)) :
    ∀ before, before <+: operations → P before := by
  intro before hbefore
  rw [List.prefix_iff_eq_take.1 hbefore]
  exact h _ (Nat.lt_succ_of_le hbefore.length_le)

def oneWord : Session :=
  match create { size := 8, align := 8 } with
  | .ok s => s
  | .error _ => { region := { settings := { size := 8, align := 8 } } }

/-- The word comes to hold the address of a segment, and transaction 1 claims it. -/
def claimedRoot : List Operation :=
  [.begin false, .alloc 0 8 true, .write 0 Region.start [0, 0, 0, 0, 0, 2, 0, 0], .finish 0,
    .begin false, .read 1 Region.start 8]

/-- Transaction 2 reads the address; then transaction 1 clears the word, frees
    the segment and commits. -/
def overtaking : List Operation :=
  [.read 2 Region.start 8, .write 1 Region.start (List.replicate 8 0), .free 1 (.ofParts 1 0),
    .finish 1]

def lostRace : List Operation := claimedRoot ++ .begin false :: overtaking

/-- The same as a script of transaction 2, which then follows the address. -/
def overtaken (_ : Nat) (h : Handle) : Script Unit :=
  .act (.read h Region.start 8) fun _ =>
  .act (.write 1 Region.start (List.replicate 8 0)) fun _ =>
  .act (.free 1 (.ofParts 1 0)) fun _ =>
  .act (.finish 1) fun _ =>
  .act (.read h (.ofParts 1 0) 8) fun answer =>
  .done (match answer.failure? with
    | some failure => .error failure
    | none => .ok ())

theorem through_lostRace :
    Through StoresOne (oneWord.record [] lostRace) (oneWord.run lostRace).2 2 (.ofParts 1 0)
      ⟨0, 0⟩ [0, 0, 0, 0, 0, 2, 0, 0] (oneWord.record [] (claimedRoot ++ [.begin false]))
      (.read 2 (.ofParts 1 0) 8) :=
  through_read (i := 1) (by decide +kernel) (by decide +kernel) (by decide +kernel)
    (by decide +kernel) (by decide +kernel) (by decide +kernel)

/-- The attempts of a call begin where the run before it has ended. -/
theorem through_start {k : Nat} {g : Handle} {before operations : List Operation}
    {operation : Operation}
    (hthrough : Through stores (s.record hist (operations ++ .begin false :: before))
      (s.run (operations ++ .begin false :: before)).2 h b ref bytes past operation) :
    let x := Attempt.start k g (s.record hist operations) (s.run operations).2
    Through stores (x.session.record x.hist before) (x.session.run before).2 h b ref bytes past
      operation := by
  rw [record_append, run_append] at hthrough
  exact hthrough

/-- The one attempt of a call with the script is transaction 2, which follows
    the address as its last operation. -/
theorem disciplined_overtaken {x : Attempt}
    (hx : Attempt.Of overtaken 1 1 (oneWord.record [] claimedRoot) (oneWord.run claimedRoot).2 x) :
    x.Disciplined StoresOne (overtaken x.number x.handle) := by
  obtain ⟨h, hbegins, rfl⟩ := hx.eq_start
  have hstarted : ((oneWord.run claimedRoot).2.begin false).1 = .started 2 := by decide +kernel
  cases hstarted.symm.trans hbegins
  constructor
  · exact forall_initial (by decide +kernel)
  · intro b hb
    have hfailed : (overtaken 1 2).result ((oneWord.run claimedRoot).2.begin false).2
      = .error (.invalidAddress (.ofParts 1 0)) := by decide +kernel
    cases hfailed.symm.trans hb
    exact ⟨overtaking, .read 2 (.ofParts 1 0) 8, _, _, _, by decide +kernel, by decide +kernel,
      through_start through_lostRace⟩

/-- The word holds the address of a segment, which holds that of another one.
    Transaction 2 observes the word and claims the one in the first segment;
    then transaction 1 clears the word, frees both segments and commits. -/
def lostChain : List Operation :=
  [.begin false, .alloc 0 8 true, .alloc 0 8 true, .write 0 Region.start [0, 0, 0, 0, 0, 2, 0, 0],
    .write 0 (.ofParts 1 0) [0, 0, 0, 0, 0, 3, 0, 0], .finish 0, .begin false,
    .read 1 Region.start 8, .begin false, .read 2 Region.start 8, .read 2 (.ofParts 1 0) 8,
    .write 1 Region.start (List.replicate 8 0), .free 1 (.ofParts 1 0), .free 1 (.ofParts 2 0),
    .finish 1]

/-- Transaction 2 may follow the address that it has claimed. -/
theorem through_lostChain :
    Through StoresOne (oneWord.record [] lostChain) (oneWord.run lostChain).2 2 (.ofParts 2 0)
      ⟨1, 0⟩ [0, 0, 0, 0, 0, 3, 0, 0] (oneWord.record [] (lostChain.take 10))
      (.read 2 (.ofParts 2 0) 8) :=
  through_read (i := 2) (by decide +kernel) (by decide +kernel) (by decide +kernel)
    (by decide +kernel) (by decide +kernel) (by decide +kernel)

/-! ## Who gets an invalid address -/

/-- Take any run, and let `stores` tell which addresses a word holds. A read-write
    transaction reads, writes or frees at an address, inside the segment, that it
    has read from a word which it had not written, and it has not freed the
    segment.

    While every address in the committed value of a word in use names a segment
    in use, the operation succeeds, or fails in a way worth another attempt, or
    fails with an invalid address because the word is outdated: the transaction
    had observed it, and its committed value has changed since; or the value is
    the one that was read, but its segment has left use. If words out of use are
    held to the same rule and the run was orderly, then the word has changed.

    So a call of `atomically` whose attempts do nothing else returns an invalid
    address only if one of them has met a word that was outdated. -/
theorem invalidAddress_only_if_outdated {settings : Settings} {start s : Session}
    (hcreate : create settings = .ok start) {operations : List Operation}
    (hrun : (start.run operations).2 = s) {hist : History}
    (hrecord : start.record [] operations = hist)
    (stores : WordRef → List UInt8 → Address → Prop) :
    (∀ h t b ref bytes past operation, s.open? h = some t → t.isReadOnly = false →
      Through stores hist s h b ref bytes past operation → s.AddressesHold stores s.InUse →
        (s.step operation).1.isOk = true ∨
          ∃ failure, (s.step operation).1.failure? = some failure ∧
            RetryableOr b (s.Outdated t ref bytes past) failure) ∧
      (∀ h t b ref bytes past operation, s.open? h = some t → t.isReadOnly = false →
        Through stores hist s h b ref bytes past operation → start.Orderly operations →
          s.AddressesHold stores (fun _ => True) →
            (s.step operation).1.isOk = true ∨
              ∃ failure, (s.step operation).1.failure? = some failure ∧
                RetryableOr b (s.Overwritten t ref bytes past) failure) ∧
      ∀ (α σ : Type) (script : Nat → Handle → Script α) (limit : Nat) (own : σ) (b : Address),
        (∀ x, Attempt.Of script limit 1 hist s x →
          x.Disciplined stores (script x.number x.handle)) →
        (atomically false limit (fun k h => (script k h).body) (s, own)).1
          = some (.error (.invalidAddress b)) →
        ∃ x before t ref bytes past, Attempt.Of script limit 1 hist s x ∧
          before <+: (script x.number x.handle).operations x.session ∧
          (x.session.run before).2.open? x.handle = some t ∧
          Obtained stores (x.session.record x.hist before) x.handle b ref bytes past ∧
          (x.session.run before).2.Outdated t ref bytes past := by
  have htracks : Tracks hist s := by
    rw [← hrun, ← hrecord]
    exact (Tracks.of_create hcreate).run operations
  refine ⟨?_, ?_, ?_⟩
  · intro h t b ref bytes past operation ho hrw hthrough hholds
    exact step_through htracks.steady ho hrw hthrough fun i hi =>
      outdated_of_unoccupied htracks ho hholds hthrough.obtained hi
  · intro h t b ref bytes past operation ho hrw hthrough horderly hholds
    have hrec := (Recorded.created hcreate).run operations horderly
    rw [hrun] at hrec
    exact step_through htracks.steady ho hrw hthrough fun i hi =>
      overwritten_of_unoccupied hrec.sound htracks ho hholds hthrough.obtained hi
  · intro α σ script limit own b hdisciplined hresult
    rcases exists_attempt_of_error hist hresult with hids | ⟨x, hx, herror⟩
    · cases hids
    · -- The failure was returned by one attempt, whose run goes on from this one.
      obtain ⟨before, t, ref, bytes, past, hmet⟩ :=
        outdated_of_attempt hx htracks (hdisciplined x hx) herror
      exact ⟨x, before, t, ref, bytes, past, hx, hmet⟩

/-- A transaction has observed the word that names a segment, and the segment is
    freed before the transaction gets there. What it has read is outdated, both
    where the operation fails and in the call that returns the failure. -/
theorem invalidAddress_when_overtaken :
    (∃ t, (oneWord.run lostRace).2.open? 2 = some t ∧
      (oneWord.run lostRace).2.Overwritten t ⟨0, 0⟩ [0, 0, 0, 0, 0, 2, 0, 0]
        (oneWord.record [] (claimedRoot ++ [.begin false]))) ∧
      (atomically false 1 (fun k h => (overtaken k h).body) ((oneWord.run claimedRoot).2, ())).1
        = some (.error (.invalidAddress (.ofParts 1 0))) ∧
      ∃ x before t ref bytes past,
        Attempt.Of overtaken 1 1 (oneWord.record [] claimedRoot) (oneWord.run claimedRoot).2 x ∧
        (x.session.run before).2.open? x.handle = some t ∧
        (x.session.run before).2.Outdated t ref bytes past := by
  refine ⟨?_, by decide +kernel, ?_⟩
  · have hfailure : ((oneWord.run lostRace).2.step (.read 2 (.ofParts 1 0) 8)).1.failure?
        = some (.invalidAddress (.ofParts 1 0)) := by decide +kernel
    have hmode : ((oneWord.run lostRace).2.open? 2).map Transaction.isReadOnly = some false := by
      decide +kernel
    have horderly : oneWord.Orderly lostRace := by
      refine ⟨trivial, trivial, trivial, fun hfalse => absurd hfalse (by decide +kernel), trivial,
        trivial, trivial, trivial, trivial, trivial, fun hfalse => absurd hfalse ?_, trivial⟩
      decide +kernel
    obtain ⟨t, ho, hrw⟩ := Option.map_eq_some_iff.1 hmode
    refine ⟨t, ho, ?_⟩
    have hstep := (@invalidAddress_only_if_outdated { size := 8, align := 8 } oneWord _ rfl
      lostRace rfl _ rfl StoresOne).2.1 2 t _ _ _ _ _ ho hrw through_lostRace horderly
      (by decide +kernel)
    rcases hstep with hok | ⟨failure, heq, hretryable | ⟨-, hoverwritten⟩⟩
    · rw [Answer.failure?_of_isOk hok] at hfailure
      cases hfailure
    · rw [hfailure] at heq
      cases heq
      cases hretryable
    · exact hoverwritten
  · have hcall := (@invalidAddress_only_if_outdated { size := 8, align := 8 } oneWord _ rfl
      claimedRoot rfl _ rfl StoresOne).2.2 Unit Unit overtaken 1 () (.ofParts 1 0)
      (fun x => disciplined_overtaken) (by decide +kernel)
    obtain ⟨x, before, t, ref, bytes, past, hx, -, ho, -, houtdated⟩ := hcall
    exact ⟨x, before, t, ref, bytes, past, hx, ho, houtdated⟩

/-- Who has lost a race is not always told to try again, although every address
    holds after every operation. One transaction follows an address that it has
    observed, once by itself and once in a call; another one follows an address
    that it has claimed, in a segment which was freed with all that it names. -/
theorem lost_race_not_retried :
    ((∀ before, before <+: lostRace →
        (oneWord.run before).2.AddressesHold StoresOne fun _ => True) ∧
      (((oneWord.run lostRace).2.open? 2).map Transaction.isReadOnly = some false ∧
        Through StoresOne (oneWord.record [] lostRace) (oneWord.run lostRace).2 2 (.ofParts 1 0)
          ⟨0, 0⟩ [0, 0, 0, 0, 0, 2, 0, 0] (oneWord.record [] (claimedRoot ++ [.begin false]))
          (.read 2 (.ofParts 1 0) 8)) ∧
      ((oneWord.run lostRace).2.step (.read 2 (.ofParts 1 0) 8)).1.failure?
        = some (.invalidAddress (.ofParts 1 0)) ∧
      (atomically false 1 (fun k h => (overtaken k h).body) ((oneWord.run claimedRoot).2, ())).1
        = some (.error (.invalidAddress (.ofParts 1 0)))) ∧
    ((∀ before, before <+: lostChain →
        (oneWord.run before).2.AddressesHold StoresOne (oneWord.run before).2.InUse) ∧
      (((oneWord.run lostChain).2.open? 2).map Transaction.isReadOnly = some false ∧
        Through StoresOne (oneWord.record [] lostChain) (oneWord.run lostChain).2 2 (.ofParts 2 0)
          ⟨1, 0⟩ [0, 0, 0, 0, 0, 3, 0, 0] (oneWord.record [] (lostChain.take 10))
          (.read 2 (.ofParts 2 0) 8)) ∧
      (oneWord.run lostChain).2.region.committed? ⟨1, 0⟩ = some [0, 0, 0, 0, 0, 3, 0, 0] ∧
      ((oneWord.run lostChain).2.step (.read 2 (.ofParts 2 0) 8)).1.failure?
        = some (.invalidAddress (.ofParts 2 0))) ∧
    ∀ a, (Failure.invalidAddress a).isRetryable = false := by
  refine ⟨⟨forall_initial (by decide +kernel), ⟨by decide +kernel, through_lostRace⟩,
    by decide +kernel, by decide +kernel⟩, ⟨forall_initial (by decide +kernel),
    ⟨by decide +kernel, through_lostChain⟩, by decide +kernel, by decide +kernel⟩, fun a => rfl⟩

end Session

end TransactionalMemory
