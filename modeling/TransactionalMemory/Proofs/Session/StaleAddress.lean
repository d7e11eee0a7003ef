import TransactionalMemory.Proofs.Session.Readings

/-! # Addresses in memory

    Programs keep addresses in words. If every word in use that holds an address
    names a segment in use, whoever follows an address that it has just read
    from committed memory finds a segment. A read-write transaction may follow
    it later, when others have ended. Then the slot may be empty or retired, and
    the transaction gets an invalid address, which is not worth another attempt.

    This happens in two cases only. The transaction observed the word while
    somebody else was the accessor, and the committed value has changed since;
    or the word has its value, but is itself in a segment that has left use. So
    an address that was read with a claim, from a segment that stays in use,
    stays good. In an orderly run it stays good wherever it was, if words in
    segments out of use are held to the same rule. -/

namespace TransactionalMemory

namespace Answer

def isOk : Answer → Bool
  | .begun (.started _) => true
  | .bytes (some (.ok _)) => true
  | .done (some (.ok _)) => true
  | .allocated (some (.ok _)) => true
  | _ => false

def failure? : Answer → Option Failure
  | .begun (.refused failure) => some failure
  | .bytes (some (.error failure)) => some failure
  | .done (some (.error failure)) => some failure
  | .allocated (some (.error failure)) => some failure
  | _ => none

/-- An operation does what it was asked to do, or returns a failure, not both. -/
theorem failure?_of_isOk {answer : Answer} (h : answer.isOk = true) : answer.failure? = none := by
  unfold isOk at h
  split at h
  · rfl
  · rfl
  · rfl
  · rfl
  · cases h

variable {failure : Failure}

theorem failure?_begun {outcome : Begun} :
    (begun outcome).failure? = some failure ↔ outcome = .refused failure := by
  cases outcome <;> simp [failure?]

theorem failure?_bytes {value : Option (Except Failure (List UInt8))} :
    (bytes value).failure? = some failure ↔ value = some (.error failure) := by
  rcases value with _ | _ | _ <;> simp [failure?]

theorem failure?_done {value : Option (Except Failure Unit)} :
    (done value).failure? = some failure ↔ value = some (.error failure) := by
  rcases value with _ | _ | _ <;> simp [failure?]

theorem failure?_allocated {value : Option (Except Failure Address)} :
    (allocated value).failure? = some failure ↔ value = some (.error failure) := by
  rcases value with _ | _ | _ <;> simp [failure?]

end Answer

namespace Session

variable {s : Session} {h : Handle} {t : Transaction} {hist past : History}
  {stores : WordRef → List UInt8 → Address → Prop} {b : Address} {ref : WordRef}
  {bytes : List UInt8} {failure : Failure} {reason : Prop}

/-! ## Words that hold addresses -/

/-- A segment is in use: its slot is live, or an open transaction has freed it. -/
def InUse (s : Session) (n : Nat) : Prop :=
  ∃ i, (s.region.table.lookup i).isOccupied = true ∧
    (s.region.table.lookup i).segment? = some n

theorem lt_size_of_segment? {table : SlotTable} {i n : Nat}
    (h : (table.lookup i).segment? = some n) : i < table.slots.size := by
  by_cases hlt : i < table.slots.size
  · exact hlt
  · rw [SlotTable.lookup, Array.getElem?_eq_none (Nat.le_of_not_lt hlt)] at h
    cases h

instance (s : Session) (n : Nat) : Decidable (s.InUse n) :=
  decidable_of_iff
    (∃ i < s.region.table.slots.size, (s.region.table.lookup i).isOccupied = true ∧
      (s.region.table.lookup i).segment? = some n)
    ⟨fun ⟨i, _, h⟩ => ⟨i, h⟩, fun ⟨i, h⟩ => ⟨i, lt_size_of_segment? h.2, h⟩⟩

/-- Every address in the committed value of a word names a segment in use.
    `stores` tells which addresses a word holds, and `kept` which segments have
    words for which this counts. -/
def AddressesHold (s : Session) (stores : WordRef → List UInt8 → Address → Prop)
    (kept : Nat → Prop) : Prop :=
  ∀ ref bytes a i, kept ref.segment → s.region.committed? ref = some bytes →
    stores ref bytes a → a.slot? = some i → (s.region.table.lookup i).isOccupied = true

/-- A transaction has read an address of the segment of `b` from a word that it
    had not written. -/
structure Obtained (stores : WordRef → List UInt8 → Address → Prop) (hist : History) (h : Handle)
    (b : Address) (ref : WordRef) (bytes : List UInt8) (past : History) : Prop where
  read : .accessed h (.read ref bytes) :: past <:+ hist
  unwritten : past.lastWrite h ref = none
  names : ∃ a i, stores ref bytes a ∧ a.slot? = some i ∧ b.slot? = some i

/-- The range fits the segment that the address leads to, if there is one. -/
def Inside (s : Session) (b : Address) (length : Nat) : Prop :=
  ∀ i n seg, b.slot? = some i → (s.region.table.lookup i).segment? = some n →
    s.region.segment? n = some seg →
      Transaction.inBounds s.region.wordSize seg.size b.offset length = true

instance (s : Session) (b : Address) (length : Nat) : Decidable (s.Inside b length) :=
  decidable_of_iff
    (∀ i ∈ b.slot?, ∀ n ∈ (s.region.table.lookup i).segment?, ∀ seg ∈ s.region.segment? n,
      Transaction.inBounds s.region.wordSize seg.size b.offset length = true)
    ⟨fun h i n seg hi hn hseg => h i hi n hn seg hseg,
      fun h i hi n hn seg hseg => h i n seg hi hn hseg⟩

/-- The operation reads, writes or frees at the address as it may. -/
inductive Uses (s : Session) (h : Handle) (b : Address) : Operation → Prop where
  | read {length : Nat} (inside : s.Inside b length) : Uses s h b (.read h b length)
  | write {bytes : List UInt8} (inside : s.Inside b bytes.length) : Uses s h b (.write h b bytes)
  | free {i : Nat} (freeable : Transaction.freeable? b = some i) : Uses s h b (.free h b)

/-- The operation follows an address that its transaction has obtained and has
    not freed. -/
structure Through (stores : WordRef → List UInt8 → Address → Prop) (hist : History) (s : Session)
    (h : Handle) (b : Address) (ref : WordRef) (bytes : List UInt8) (past : History)
    (operation : Operation) : Prop where
  obtained : Obtained stores hist h b ref bytes past
  unfreed : ∀ t i, s.open? h = some t → b.slot? = some i → i ∉ t.freed
  uses : Uses s h b operation

/-- A transaction observed a word, whose committed value has changed since. -/
def Overwritten (s : Session) (t : Transaction) (ref : WordRef) (bytes : List UInt8)
    (past : History) : Prop :=
  ⟨ref, past.commits ref % commitCounts⟩ ∈ t.observed ∧ s.region.committed? ref ≠ some bytes

/-- What a transaction read from a word does not count any more. -/
inductive Outdated (s : Session) (t : Transaction) (ref : WordRef) (bytes : List UInt8)
    (past : History) : Prop where
  /-- It observed the word, and the committed value is not what it was. -/
  | changed (overwritten : s.Overwritten t ref bytes past)
  /-- The segment of the word has left use, with the value that was read. -/
  | gone (unused : ¬ s.InUse ref.segment)
      (value : ∀ now, s.region.committed? ref = some now → now = bytes)

/-- A value that a transaction has read is still there, unless the word was
    observed and has changed, or was claimed and has lost its storage. -/
theorem overwritten_or_kept (htracks : Tracks hist s) (ho : s.open? h = some t)
    (hread : .accessed h (.read ref bytes) :: past <:+ hist)
    (hunwritten : past.lastWrite h ref = none) :
    s.Overwritten t ref bytes past ∨ s.region.committed? ref = some bytes ∨
      (ref ∈ t.touched ∧ s.region.cell? ref = none) := by
  by_cases hsame : s.region.committed? ref = some bytes
  · exact .inr (.inl hsame)
  · have hrelies := htracks.traced.relies h t ref bytes past ho hread hunwritten
    rcases hrelies with ⟨htouched, hvalue⟩ | hobserved
    · refine .inr (.inr ⟨htouched, ?_⟩)
      -- A claim keeps the value for as long as there is the word.
      cases hcell : s.region.cell? ref with
      | none => rfl
      | some c =>
        refine absurd ?_ hsame
        rw [Region.committed?_eq, hcell, Option.map_some, hvalue c hcell]
    · exact .inl ⟨hobserved, hsame⟩

/-- An address that leads to no segment in use was read from a word that is outdated. -/
theorem outdated_of_unoccupied (htracks : Tracks hist s) (ho : s.open? h = some t)
    (hholds : s.AddressesHold stores s.InUse) (hobtained : Obtained stores hist h b ref bytes past)
    {i : Nat} (hb : b.slot? = some i)
    (hunoccupied : (s.region.table.lookup i).isOccupied = false) :
    s.Outdated t ref bytes past := by
  obtain ⟨a, j, hstores, ha, hj⟩ := hobtained.names
  cases hb.symm.trans hj
  rcases overwritten_or_kept htracks ho hobtained.read hobtained.unwritten with
    hoverwritten | hsame | ⟨htouched, hnone⟩
  · exact .changed hoverwritten
  · -- A word in use that has this value would name a segment in use.
    refine .gone (fun hinUse => ?_) fun now hnow => Option.some.inj (hnow.symm.trans hsame)
    rw [hholds ref bytes a i hinUse hsame hstores ha] at hunoccupied
    cases hunoccupied
  · -- The words of a segment in use have storage, claimed or not.
    refine .gone (fun ⟨k, _, hk⟩ => ?_) fun now hnow => ?_
    · obtain ⟨seg, hseg⟩ := htracks.steady.backed.exists_segment hk
      obtain ⟨c, hc, -⟩ := (htracks.steady.claims h t ho ref htouched).2 (by rw [hseg]; rfl)
      cases hnone.symm.trans hc
    · rw [Region.committed?_eq, hnone] at hnow
      cases hnow

/-- If no word with storage may name a segment out of use, then the word was
    observed and has changed. -/
theorem overwritten_of_unoccupied (hs : s.Sound) (htracks : Tracks hist s)
    (ho : s.open? h = some t) (hholds : s.AddressesHold stores fun _ => True)
    (hobtained : Obtained stores hist h b ref bytes past) {i : Nat} (hb : b.slot? = some i)
    (hunoccupied : (s.region.table.lookup i).isOccupied = false) :
    s.Overwritten t ref bytes past := by
  obtain ⟨a, j, hstores, ha, hj⟩ := hobtained.names
  cases hb.symm.trans hj
  rcases overwritten_or_kept htracks ho hobtained.read hobtained.unwritten with
    hoverwritten | hsame | ⟨htouched, hnone⟩
  · exact hoverwritten
  · rw [hholds ref bytes a i trivial hsame hstores ha] at hunoccupied
    cases hunoccupied
  · -- Here the run has to be orderly: no word in the log has lost its storage.
    obtain ⟨c, hc, -⟩ := hs.cell?_of_touched ho htouched
    cases hnone.symm.trans hc

/-! ## What following an address comes to -/

/-- The ways in which following an address may fail: so that another attempt is
    worth it, or with an invalid address for a reason. -/
def RetryableOr (b : Address) (reason : Prop) (failure : Failure) : Prop :=
  failure.isRetryable = true ∨ (failure = .invalidAddress b ∧ reason)

/-- Resolving a range that fits finds the segment, or fails because somebody
    else has freed it. -/
theorem resolve_of_inside (hs : s.Steady) (hrw : t.isReadOnly = false) {length i : Nat}
    (hb : b.slot? = some i) (hinside : s.Inside b length) (hunfreed : i ∉ t.freed) :
    (∃ first seg, t.resolve s.region b length = .ok first ∧
      s.region.segment? first.segment = some seg) ∨
    t.resolve s.region b length = .error (.conflict b) ∨
    (t.resolve s.region b length = .error (.invalidAddress b) ∧
      (s.region.table.lookup i).isOccupied = false) := by
  unfold Transaction.resolve Transaction.reach
  simp only [hb]
  cases hlookup : s.region.table.lookup i with
  | live n =>
    have hn : (s.region.table.lookup i).segment? = some n := by rw [hlookup]; rfl
    obtain ⟨seg, hseg⟩ := hs.backed.exists_segment hn
    have hin := hinside i n seg hb hn hseg
    refine .inl ⟨⟨n, b.offset / s.region.wordSize⟩, seg, ?_, hseg⟩
    simp only [hseg, Option.elim_some, hin, if_true]
  | freeing n => exact .inr (.inl (by simp [hrw, hunfreed]))
  | retired n => exact .inr (.inr (by simp [hrw, Slot.isOccupied]))
  | vacant => exact .inr (.inr (by simp [Slot.isOccupied]))

/-- A pass over the words of a segment succeeds or meets a conflict. -/
theorem ofPass_failure {α : Type} {r : Region} {a : Address} {first : WordRef}
    {pass : Transaction.Pass α}
    (h : (Transaction.ofPass r a first pass).value = .error failure) :
    failure.isRetryable = true := by
  unfold Transaction.ofPass at h
  cases hvalue : pass.value with
  | ok value => simp [hvalue] at h
  | error w =>
    simp only [hvalue, Transaction.fail, Except.error.injEq] at h
    rw [← h]
    rfl

/-- A range that fits and is not resolved is one that somebody else has freed. -/
theorem retryableOr_of_unresolved (hs : s.Steady) (hrw : t.isReadOnly = false) {length i : Nat}
    (hb : b.slot? = some i) (hinside : s.Inside b length) (hunfreed : i ∉ t.freed)
    (hreason : (s.region.table.lookup i).isOccupied = false → reason)
    (hwhy : t.resolve s.region b length = .error failure ∨
      ∃ first, t.resolve s.region b length = .ok first ∧ s.region.segment? first.segment = none ∧
        failure = .invalidAddress b) : RetryableOr b reason failure := by
  rcases resolve_of_inside hs hrw hb hinside hunfreed with
    ⟨first, seg, hok, hseg⟩ | hconflict | ⟨hinvalid, hunoccupied⟩
  · rcases hwhy with herror | ⟨first', hok', hnone, -⟩
    · cases hok.symm.trans herror
    · cases hok.symm.trans hok'
      cases hseg.symm.trans hnone
  · rcases hwhy with herror | ⟨first', hok', -, -⟩
    · cases hconflict.symm.trans herror
      exact .inl rfl
    · cases hconflict.symm.trans hok'
  · rcases hwhy with herror | ⟨first', hok', -, -⟩
    · cases hinvalid.symm.trans herror
      exact .inr ⟨rfl, hreason hunoccupied⟩
    · cases hinvalid.symm.trans hok'

section

variable {i : Nat} (hs : s.Steady) (hrw : t.isReadOnly = false) (hb : b.slot? = some i)
  (hunfreed : i ∉ t.freed)
  (hreason : (s.region.table.lookup i).isOccupied = false → reason)

include hs hrw hb hunfreed hreason

theorem retryableOr_of_read {length : Nat} (hinside : s.Inside b length)
    (hvalue : (t.read s.region b length).value = .error failure) :
    RetryableOr b reason failure := by
  cases t.read_cases s.region b length with
  | refused doomed heq =>
    rw [heq] at hvalue
    cases hvalue
    exact .inl rfl
  | failed undoomed why heq =>
    rw [heq] at hvalue
    cases hvalue
    exact retryableOr_of_unresolved hs hrw hb hinside hunfreed hreason why
  | shared undoomed readOnly resolved found heq => rw [heq] at hvalue; cases hvalue
  | passed undoomed readWrite resolved found heq =>
    rw [heq] at hvalue
    exact .inl (ofPass_failure hvalue)

theorem retryableOr_of_write {written : List UInt8} (hinside : s.Inside b written.length)
    (hvalue : (t.write s.region b written).value = .error failure) :
    RetryableOr b reason failure := by
  cases t.write_cases s.region b written with
  | refused doomed heq =>
    rw [heq] at hvalue
    cases hvalue
    exact .inl rfl
  | failed undoomed why heq =>
    rw [heq] at hvalue
    cases hvalue
    rcases why with ⟨hro, -⟩ | hwhy
    · rw [hro] at hrw; cases hrw
    · exact retryableOr_of_unresolved hs hrw hb hinside hunfreed hreason hwhy
  | passed undoomed readWrite resolved found heq =>
    rw [heq] at hvalue
    exact .inl (ofPass_failure hvalue)

omit hs in
theorem retryableOr_of_free {j : Nat} (hfreeable : Transaction.freeable? b = some j)
    (hvalue : (t.free s.region b).value = .error failure) :
    RetryableOr b reason failure := by
  cases hb.symm.trans (Transaction.slot?_of_freeable hfreeable)
  cases t.free_cases s.region b with
  | refused doomed heq =>
    rw [heq] at hvalue
    cases hvalue
    exact .inl rfl
  | failed undoomed why heq =>
    rw [heq] at hvalue
    cases hvalue
    rcases why with ⟨hro, -⟩ | ⟨hnone, -⟩ | ⟨k, hk, hslot⟩
    · rw [hro] at hrw; cases hrw
    · cases hfreeable.symm.trans hnone
    · cases hfreeable.symm.trans hk
      rcases hslot with ⟨n, -, hcause⟩ | ⟨hunoccupied, hcause⟩
      · rw [if_neg hunfreed] at hcause
        rw [hcause]
        exact .inl rfl
      · exact .inr ⟨hcause, hreason hunoccupied⟩
  | marked undoomed readWrite freeable live heq => rw [heq] at hvalue; cases hvalue

end

/-- Whoever reads, writes or frees at an address that it has read and not freed
    succeeds, or fails in a way worth another attempt, or there is a reason why
    the address leads to no segment in use. -/
theorem step_through (hs : s.Steady) (ho : s.open? h = some t)
    (hrw : t.isReadOnly = false) {operation : Operation}
    (hthrough : Through stores hist s h b ref bytes past operation)
    (hreason : ∀ i, b.slot? = some i → (s.region.table.lookup i).isOccupied = false → reason) :
    (s.step operation).1.isOk = true ∨
      ∃ failure, (s.step operation).1.failure? = some failure ∧ RetryableOr b reason failure := by
  obtain ⟨-, i, -, -, hb⟩ := hthrough.obtained.names
  have hunfreed := hthrough.unfreed t i ho hb
  cases hthrough.uses with
  | @read length inside =>
    rw [step, read, access_of_open _ ho]
    cases hvalue : (t.read s.region b length).value with
    | ok bytes => exact .inl rfl
    | error cause =>
      exact .inr ⟨cause, rfl, retryableOr_of_read hs hrw hb hunfreed (hreason i hb) inside hvalue⟩
  | @write written inside =>
    rw [step, write, access_of_open _ ho]
    cases hvalue : (t.write s.region b written).value with
    | ok _ => exact .inl rfl
    | error cause =>
      exact .inr ⟨cause, rfl, retryableOr_of_write hs hrw hb hunfreed (hreason i hb) inside hvalue⟩
  | @free j freeable =>
    rw [step, free, access_of_open _ ho]
    cases hvalue : (t.free s.region b).value with
    | ok _ => exact .inl rfl
    | error cause =>
      exact .inr ⟨cause, rfl, retryableOr_of_free hrw hb hunfreed (hreason i hb) freeable hvalue⟩

end Session

end TransactionalMemory
