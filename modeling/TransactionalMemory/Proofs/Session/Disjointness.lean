import TransactionalMemory.Proofs.Session.Territory
import TransactionalMemory.Proofs.Session.Verdicts

/-! # Disjoint transactions do not hinder each other

    Let a read-write transaction keep to words that no other read-write
    transaction accesses, and to segments that none of them frees, of all those
    that are open together with it at some time. Then nothing is in conflict with
    it. It commits, too, unless it has given up or has misused an address or a
    size, whatever else is done meanwhile: by read-only transactions, by
    allocations and frees elsewhere, by transactions that end in either way, and
    by collections. -/

namespace TransactionalMemory

/-! ## Why operations fail -/

namespace Failure

/-- An address, a range or a size was not right. -/
def isMisuse : Failure → Bool
  | .invalidAddress _ | .misaligned .. | .invalidLayout .. => true
  | .conflict _ | .doomed | .outOfMemory | .readOnly | .idsExhausted => false

/-- Why an undoomed transaction that may write can fail. -/
def OfWriter (failure : Failure) : Prop :=
  failure = .outOfMemory ∨ (∃ b, failure = .conflict b) ∨ failure.isMisuse = true

end Failure

namespace Transaction

variable {t : Transaction} {r : Region} {a : Address} {failure : Failure}

theorem ofWriter_of_resolve {length : Nat} (h : t.resolve r a length = .error failure) :
    failure.OfWriter := by
  unfold resolve reach at h
  grind [Failure.OfWriter, Failure.isMisuse]

/-- A pass that stops is in conflict. -/
theorem ofWriter_of_pass {α : Type} {first : WordRef} {pass : Pass α}
    (h : (ofPass r a first pass).value = .error failure) : failure.OfWriter := by
  unfold ofPass at h
  split at h
  · cases h
  · cases h
    exact .inr (.inl ⟨_, rfl⟩)

section

variable (hundoomed : t.doomed = false) (hrw : t.isReadOnly = false)

include hundoomed hrw

theorem ofWriter_of_read {length : Nat} (h : (t.read r a length).value = .error failure) :
    failure.OfWriter := by
  cases t.read_cases r a length with
  | refused doomed heq => cases hundoomed.symm.trans doomed
  | failed undoomed why heq =>
    rw [heq] at h
    cases h
    rcases why with hresolve | ⟨-, -, -, rfl⟩
    · exact ofWriter_of_resolve hresolve
    · exact .inr (.inr rfl)
  | shared undoomed readOnly resolved found heq => cases hrw.symm.trans readOnly
  | passed undoomed readWrite resolved found heq =>
    rw [heq] at h
    exact ofWriter_of_pass h

theorem ofWriter_of_write {bytes : List UInt8} (h : (t.write r a bytes).value = .error failure) :
    failure.OfWriter := by
  cases t.write_cases r a bytes with
  | refused doomed heq => cases hundoomed.symm.trans doomed
  | failed undoomed why heq =>
    rw [heq] at h
    cases h
    rcases why with ⟨hro, -⟩ | hresolve | ⟨-, -, -, rfl⟩
    · cases hrw.symm.trans hro
    · exact ofWriter_of_resolve hresolve
    · exact .inr (.inr rfl)
  | passed undoomed readWrite resolved found heq =>
    rw [heq] at h
    exact ofWriter_of_pass h

theorem ofWriter_of_alloc {size : Nat} {memory : Bool}
    (h : (t.alloc r size memory).value = .error failure) : failure.OfWriter := by
  cases t.alloc_cases r size memory with
  | refused doomed heq => cases hundoomed.symm.trans doomed
  | failed undoomed why heq =>
    rw [heq] at h
    cases h
    rcases why with ⟨hro, -⟩ | ⟨-, -, rfl⟩
    · cases hrw.symm.trans hro
    · exact .inr (.inr rfl)
  | scarce undoomed readWrite attempt heq =>
    rw [heq] at h
    cases h
    exact .inl rfl
  | granted undoomed readWrite whole enough found heq =>
    rw [heq] at h
    cases h

theorem ofWriter_of_free (h : (t.free r a).value = .error failure) : failure.OfWriter := by
  cases t.free_cases r a with
  | refused doomed heq => cases hundoomed.symm.trans doomed
  | failed undoomed why heq =>
    rw [heq] at h
    cases h
    rcases why with ⟨hro, -⟩ | ⟨-, rfl⟩ | ⟨slot, -, ⟨n, -, rfl⟩ | ⟨-, rfl⟩⟩
    · cases hrw.symm.trans hro
    · exact .inr (.inr rfl)
    · split
      · exact .inr (.inr rfl)
      · exact .inr (.inl ⟨a, rfl⟩)
    · exact .inr (.inr rfl)
  | marked undoomed readWrite freeable live heq =>
    rw [heq] at h
    cases h

end

end Transaction

namespace Session

variable {s start : Session} {h k : Handle} {t u : Transaction} {operation : Operation}
  {operations before after : List Operation} {failure : Failure} {ref : WordRef}

theorem ofWriter_of_failure (ho : s.open? h = some t) (hundoomed : t.doomed = false)
    (hrw : t.isReadOnly = false) (huser : operation.user? = some h)
    (hfailed : (s.step operation).1.failure? = some failure) : failure.OfWriter := by
  cases operation with
  | read k a length =>
    cases huser
    simp only [step, read, access_of_open _ ho] at hfailed
    have hvalue := Option.some.inj (Answer.failure?_bytes.1 hfailed)
    exact Transaction.ofWriter_of_read hundoomed hrw hvalue
  | write k a bytes =>
    cases huser
    simp only [step, write, access_of_open _ ho] at hfailed
    have hvalue := Option.some.inj (Answer.failure?_done.1 hfailed)
    exact Transaction.ofWriter_of_write hundoomed hrw hvalue
  | alloc k size memory =>
    cases huser
    simp only [step, alloc, access_of_open _ ho] at hfailed
    have hvalue := Option.some.inj (Answer.failure?_allocated.1 hfailed)
    exact Transaction.ofWriter_of_alloc hundoomed hrw hvalue
  | free k a =>
    cases huser
    simp only [step, free, access_of_open _ ho] at hfailed
    have hvalue := Option.some.inj (Answer.failure?_done.1 hfailed)
    exact Transaction.ofWriter_of_free hundoomed hrw hvalue
  | begin _ => cases huser
  | abort _ => cases huser
  | finish _ => cases huser
  | abandon _ => cases huser
  | collect => cases huser

/-- Of the operations of a transaction, only those that use memory can fail. -/
theorem user?_of_failure (hown : operation.handle? = some h)
    (hfailed : (s.step operation).1.failure? = some failure) : operation.user? = some h := by
  cases operation with
  | abort _ => cases hfailed
  | finish _ => cases hfailed
  | abandon _ => cases hfailed
  | _ => exact hown

/-- They fail for transactions that are open. -/
theorem isOpen_of_user (huser : operation.user? = some h)
    (hfailed : (s.step operation).1.failure? = some failure) : ∃ t, s.open? h = some t := by
  cases ho : s.open? h with
  | some t => exact ⟨t, rfl⟩
  | none =>
    cases operation with
    | read k a length => cases huser; simp [step, read, access, ho, Answer.failure?] at hfailed
    | write k a bytes => cases huser; simp [step, write, access, ho, Answer.failure?] at hfailed
    | alloc k size memory => cases huser; simp [step, alloc, access, ho, Answer.failure?] at hfailed
    | free k a => cases huser; simp [step, free, access, ho, Answer.failure?] at hfailed
    | begin _ => cases huser
    | abort _ => cases huser
    | finish _ => cases huser
    | abandon _ => cases huser
    | collect => cases huser

/-! ## Transactions that keep apart -/

/-- Both transactions are open, and `k` is a read-write one. -/
def Together (s : Session) (h k : Handle) : Prop :=
  (s.open? h).isSome = true ∧ ∃ u ∈ s.open? k, u.isReadOnly = false

/-- They are open together at some time of the run. -/
def Meet (s : Session) (h k : Handle) : List Operation → Prop
  | [] => s.Together h k
  | operation :: rest => s.Together h k ∨ (s.step operation).2.Meet h k rest

/-- Transaction `k` accesses no word and frees no segment that transaction `h`
    tries to use, at any time of the run. -/
def KeepsClear (s : Session) (k h : Handle) (operations : List Operation) : Prop :=
  (∀ ref ∈ s.reports k accessedWords operations,
    ref ∉ s.reports h (tried askedWords) operations) ∧
  ∀ n ∈ s.reports k freedSegments operations, n ∉ s.reports h (tried namedSegments) operations

/-- No read-write transaction that transaction `h` meets gets in its way. -/
def Secluded (s : Session) (h : Handle) (operations : List Operation) : Prop :=
  ∀ k < (s.run operations).2.transactions.size, k ≠ h → s.Meet h k operations →
    s.KeepsClear k h operations

/-- Transaction `h` gives up, or misuses an address or a size. -/
def Forfeits (s : Session) (h : Handle) (operation : Operation) : Prop :=
  operation = .abort h ∨ operation.user? = some h ∧
    ∃ failure ∈ (s.step operation).1.failure?, failure.isMisuse = true

/-- It does nothing of the kind during the run. -/
def Proper (s : Session) (h : Handle) : List Operation → Prop
  | [] => True
  | operation :: rest => ¬ s.Forfeits h operation ∧ (s.step operation).2.Proper h rest

instance (s : Session) (h k : Handle) : Decidable (s.Together h k) :=
  inferInstanceAs (Decidable ((s.open? h).isSome = true ∧ ∃ u ∈ s.open? k, u.isReadOnly = false))

instance decidableMeet (s : Session) (h k : Handle) : (operations : List Operation) →
    Decidable (s.Meet h k operations)
  | [] => inferInstanceAs (Decidable (s.Together h k))
  | operation :: rest =>
    have := decidableMeet (s.step operation).2 h k rest
    inferInstanceAs (Decidable (s.Together h k ∨ (s.step operation).2.Meet h k rest))

instance (s : Session) (h k : Handle) (operations : List Operation) :
    Decidable (s.KeepsClear k h operations) :=
  inferInstanceAs (Decidable ((∀ ref ∈ s.reports k accessedWords operations,
      ref ∉ s.reports h (tried askedWords) operations) ∧
    ∀ n ∈ s.reports k freedSegments operations,
      n ∉ s.reports h (tried namedSegments) operations))

instance (s : Session) (h : Handle) (operations : List Operation) :
    Decidable (s.Secluded h operations) :=
  inferInstanceAs (Decidable (∀ k < (s.run operations).2.transactions.size, k ≠ h →
    s.Meet h k operations → s.KeepsClear k h operations))

instance (s : Session) (h : Handle) (operation : Operation) :
    Decidable (s.Forfeits h operation) :=
  inferInstanceAs (Decidable (operation = .abort h ∨ operation.user? = some h ∧
    ∃ failure ∈ (s.step operation).1.failure?, failure.isMisuse = true))

instance decidableProper (s : Session) (h : Handle) : (operations : List Operation) →
    Decidable (s.Proper h operations)
  | [] => inferInstanceAs (Decidable True)
  | operation :: rest =>
    have := decidableProper (s.step operation).2 h rest
    inferInstanceAs (Decidable (¬ s.Forfeits h operation ∧ (s.step operation).2.Proper h rest))

theorem meet_of_cut (htogether : (s.run before).2.Together h k) :
    s.Meet h k (before ++ after) := by
  induction before generalizing s with
  | nil =>
    cases after with
    | nil => exact htogether
    | cons operation rest => exact .inl htogether
  | cons operation rest ih => exact .inr (ih htogether)

theorem proper_append (s : Session) (h : Handle) (before after : List Operation) :
    s.Proper h (before ++ after) ↔ s.Proper h before ∧ (s.run before).2.Proper h after := by
  induction before generalizing s with
  | nil => exact ⟨fun hafter => ⟨trivial, hafter⟩, And.right⟩
  | cons operation rest ih =>
    rw [List.cons_append, Proper, Proper, ih, and_assoc]
    rfl

/-! ## Nothing is in conflict -/

/-- Whoever is open together with a secluded transaction has kept clear of it. -/
theorem Secluded.keepsClear (hsecluded : start.Secluded h (before ++ after)) (hs : start.Steady)
    (hk : k ≠ h) (ho : (start.run before).2.open? h = some t)
    (hu : (start.run before).2.open? k = some u) (hrw : u.isReadOnly = false) :
    start.KeepsClear k h (before ++ after) := by
  have hafter : Effects False _ _ _ := effects_record (hs.run before) after nofun
  have hlt : k < (start.run (before ++ after)).2.transactions.size := by
    rw [run_append]
    exact Nat.lt_of_lt_of_le (lt_size_of_open hu) (size_effects hafter)
  apply hsecluded k hlt hk
  apply meet_of_cut
  exact ⟨by rw [ho]; rfl, u, hu, hrw⟩

/-- Nobody holds a word that a secluded transaction tries to use. -/
theorem Secluded.unheld {settings : Settings} (hcreate : create settings = .ok start)
    (hsecluded : start.Secluded h (before ++ operation :: after))
    (hs : (start.run before).2 = s) (ho : s.open? h = some t) (huser : operation.user? = some h)
    {seg : Segment} (hseg : s.region.segment? ref.segment = some seg) (hw : ref.word < seg.words)
    (href : ref ∈ tried askedWords s operation) : ¬ (seg.control ref.word).HeldByOther t.id := by
  intro hheld
  subst hs
  have hsteady := steady_of_create hcreate
  have hsteady' := hsteady.run before
  obtain ⟨k, u, hk, hu, hrw, haccessor⟩ := heldOpen_of_heldByOther hsteady' ho hseg hw hheld
  have hcell : (start.run before).2.region.cell? ref = some (seg.cell ref.word) :=
    Region.cell?_eq_some_iff.2 ⟨seg, hseg, hw, rfl⟩
  -- Whoever holds the word has accessed it.
  have htouched := hsteady'.mem_touched hu hrw hcell haccessor
  have haccessed := accessed_of_touched hcreate hu htouched
  have hclear := hsecluded.keepsClear hsteady hk ho hu hrw
  apply hclear.1 ref (reports_mono haccessed)
  exact mem_reports_iff.2 ⟨before, operation, after, rfl, huser, by rw [ho]; rfl, href⟩

/-- Nobody else is freeing the segment of an operation that a secluded transaction
    has tried. -/
theorem Secluded.unfreed {settings : Settings} (hcreate : create settings = .ok start)
    (horderly : start.Orderly before)
    (hsecluded : start.Secluded h (before ++ operation :: after))
    (hs : (start.run before).2 = s) (ho : s.open? h = some t) (huser : operation.user? = some h)
    (htried : tried namedSegments s operation = s.namedSegments operation) :
    ¬ s.MeetsFree t operation := by
  rintro ⟨a, i, n, haddress, hslot, hfreeing, hunfreed⟩
  subst hs
  have hrec := (Recorded.created hcreate).run before horderly
  have hlogged : (start.run before).2.FreesLogged :=
    hrec.invariant freesLogged_of_create fun hs hf e => hf.effect hs e
  obtain ⟨k, u, hu, hi⟩ := hlogged i n hfreeing
  have hk : k ≠ h := by
    rintro rfl
    cases ho.symm.trans hu
    exact hunfreed hi
  have hrw : u.isReadOnly = false := by
    rw [Bool.eq_false_iff]
    intro hro
    rw [((hrec.sound.logged k u hu).readers hro).2.2.2] at hi
    cases hi
  have hfreed := freed_of_mem hcreate horderly hu hi hfreeing
  have hclear := hsecluded.keepsClear (steady_of_create hcreate) hk ho hu hrw
  apply hclear.2 n (reports_mono hfreed)
  have hnamed : n ∈ (start.run before).2.namedSegments operation :=
    mem_namedSegments haddress hslot (by rw [hfreeing]; rfl)
  rw [← htried] at hnamed
  exact mem_reports_iff.2 ⟨before, operation, after, rfl, huser, by rw [ho]; rfl, hnamed⟩

/-- Whoever bars a word from an operation holds the word. -/
theorem held_of_bars {id : TransactionId} {c : Control} (hbars : operation.Bars id c) :
    c.HeldByOther id := by
  cases operation with
  | read k a length => exact hbars.2
  | write k a bytes => exact hbars
  | _ => exact hbars.elim

/-- No operation of a secluded transaction is in conflict. -/
theorem Secluded.unopposed {settings : Settings} (hcreate : create settings = .ok start)
    (horderly : start.Orderly before)
    (hsecluded : start.Secluded h (before ++ operation :: after))
    (hs : (start.run before).2 = s) (ho : s.open? h = some t) (huser : operation.user? = some h)
    (b : Address) : (s.step operation).1.failure? ≠ some (.conflict b) := by
  intro hconflict
  have hsteady := (steady_of_create hcreate).run before
  rw [hs] at hsteady
  have hcontained := contained_step hsteady ho huser hconflict
  have hnofree : ¬ s.MeetsFree t operation :=
    hsecluded.unfreed hcreate horderly hs ho huser (tried_of_conflict namedSegments hconflict)
  -- So it has met a word of its range that somebody else holds.
  obtain ⟨a, i, n, seg, k, hstops⟩ := hcontained.stopped b rfl hnofree
  have hresolved : t.Resolved s.region a operation.length i ⟨n, a.offset / s.region.wordSize⟩ :=
    resolved_of_live hstops.slot hstops.live hstops.segment hstops.inside
  obtain ⟨hrange, -⟩ := hresolved.range_le hsteady.shaped hstops.segment
  have hwithin := hstops.within
  have hw : a.offset / s.region.wordSize + k < seg.words := by
    dsimp only at hrange
    omega
  have hasked : ⟨n, a.offset / s.region.wordSize + k⟩ ∈ s.askedWords operation := by
    apply mem_askedWords hstops.address hresolved
    exact ⟨rfl, Nat.le_add_right _ _, Nat.add_lt_add_left hwithin _⟩
  rw [← tried_of_conflict askedWords hconflict] at hasked
  exact hsecluded.unheld hcreate hs ho huser hstops.segment hw hasked (held_of_bars hstops.barred)

/-! ## Nothing speaks against its commit -/

/-- A transaction that may write could do so since it began. -/
theorem readWrite_before (hs : start.Steady) (ho : (start.run before).2.open? h = some t)
    (hu : (start.run (before ++ after)).2.open? h = some u) (hrw : u.isReadOnly = false) :
    t.isReadOnly = false := by
  have hafter : Effects False _ _ _ := effects_record (hs.run before) after nofun
  rw [run_append] at hu
  have hgoes := continues_effects hafter ho hu
  rwa [Transaction.isReadOnly, hgoes.mode_eq] at hrw

/-- A secluded transaction that is proper is not doomed. -/
theorem Secluded.undoomed {settings : Settings} (hcreate : create settings = .ok start)
    (horderly : start.Orderly before) (hsecluded : start.Secluded h (before ++ after))
    (hproper : start.Proper h before) (ho : (start.run before).2.open? h = some t)
    (hrw : t.isReadOnly = false) : t.doomed = false := by
  induction before using List.reverseRecOn generalizing after t with
  | nil => cases (open?_of_create hcreate h).symm.trans ho
  | append_singleton before operation ih =>
    obtain ⟨hbefore, -⟩ := (start.orderly_append before [operation]).1 horderly
    obtain ⟨hproper, hlast, -⟩ := (start.proper_append h before [operation]).1 hproper
    rw [List.append_assoc] at hsecluded
    have hmode : ∀ u, (start.run before).2.open? h = some u → u.isReadOnly = false := by
      intro u hu
      exact readWrite_before (steady_of_create hcreate) hu ho hrw
    have hundoomed : ∀ u, (start.run before).2.open? h = some u → u.doomed = false := by
      intro u hu
      exact ih hbefore hsecluded hproper hu (hmode u hu)
    have hspared : ¬ (start.run before).2.Dooms h operation := by
      rintro (habort | ⟨hown, failure, hfailed, hother⟩)
      · exact hlast (.inl habort)
      · have huser := user?_of_failure hown hfailed
        obtain ⟨u, hu⟩ := isOpen_of_user huser hfailed
        rcases ofWriter_of_failure hu (hundoomed u hu) (hmode u hu) huser hfailed with
          hscarce | ⟨b, rfl⟩ | hmisuse
        · exact hother hscarce
        · exact hsecluded.unopposed hcreate hbefore rfl hu huser b hfailed
        · exact hlast (.inr ⟨huser, failure, hfailed, hmisuse⟩)
    rw [start.run_cut before operation []] at ho
    exact undoomed_step hundoomed hspared t ho

/-- Whoever has observed a word has read it while another one held it. -/
theorem held_of_observes (hs : s.Steady) (ho : s.open? h = some t) (hrw : t.isReadOnly = false)
    (hobserves : s.Observes h ref operation) :
    operation.user? = some h ∧ ref ∈ tried askedWords s operation ∧
      ∃ seg, s.region.segment? ref.segment = some seg ∧ ref.word < seg.words ∧
        (seg.control ref.word).HeldByOther t.id := by
  cases operation with
  | read k a length =>
    obtain ⟨rfl, ⟨bytes, hread⟩, ⟨first, hat, hwithin⟩, hclaimed⟩ := hobserves
    have hasked : ref ∈ s.askedWords (.read k a length) := by
      rw [read, access_of_open _ ho] at hread
      cases t.read_cases s.region a length with
      | refused doomed heq => rw [heq] at hread; cases hread
      | failed undoomed why heq => rw [heq] at hread; cases hread
      | shared undoomed readOnly resolved found heq => cases hrw.symm.trans readOnly
      | passed undoomed readWrite resolved found heq =>
        cases resolved.wordAt?_eq.symm.trans hat
        exact mem_askedWords rfl resolved hwithin
    have hnone : (s.step (.read k a length)).1.failure? = none := by
      simp only [step, hread, Answer.failure?]
    obtain ⟨-, -, c, -, -, hcell, -⟩ := id hclaimed
    obtain ⟨seg, hseg, hw, rfl⟩ := Region.cell?_eq_some_iff.1 hcell
    rw [tried_of_none askedWords hnone]
    exact ⟨rfl, hasked, seg, hseg, hw, (claimedByOther_iff hs ho hrw hcell).1 hclaimed⟩
  | _ => exact hobserves.elim

/-- A secluded transaction that is not doomed has observed nothing. -/
theorem Secluded.unobserved {settings : Settings} (hcreate : create settings = .ok start)
    (hsecluded : start.Secluded h (before ++ after))
    (ho : (start.run before).2.open? h = some t) (hrw : t.isReadOnly = false)
    (hundoomed : t.doomed = false) : t.observed = [] := by
  rw [List.eq_nil_iff_forall_not_mem]
  intro o hmem
  obtain ⟨past, ⟨early, operation, middle, rfl, hobserves, -⟩, -⟩ :=
    (mem_observed_iff hcreate ho hrw hundoomed o).1 hmem
  have hsteady := (steady_of_create hcreate).run early
  obtain ⟨u, hu⟩ := isOpen_of_observes hobserves
  have hmode := readWrite_before (steady_of_create hcreate) hu ho hrw
  obtain ⟨huser, href, seg, hseg, hw, hheld⟩ := held_of_observes hsteady hu hmode hobserves
  rw [List.append_assoc] at hsecluded
  exact hsecluded.unheld hcreate rfl hu huser hseg hw href hheld

/-! ## After a run -/

/-- Nothing that the others do in the run gets in the way of transaction `h`. -/
structure Unhindered (start : Session) (h : Handle) (operations : List Operation) : Prop where
  /-- No operation is in conflict. -/
  unopposed : ∀ before operation after t b, operations = before ++ operation :: after →
    (start.run before).2.open? h = some t → operation.user? = some h →
      ((start.run before).2.step operation).1.failure? ≠ some (.conflict b)
  /-- If it has neither given up nor misused anything by its end, it commits. -/
  commits : ∀ before after t, operations = before ++ .finish h :: after →
    (start.run before).2.open? h = some t → t.isReadOnly = false → start.Proper h before →
      ((start.run before).2.finish h).1 = some true

/-- In every orderly run, a read-write transaction is unhindered if no other
    read-write transaction that is open together with it accesses a word or
    frees a segment that it tries to use. -/
theorem run_unhindered {settings : Settings} (hcreate : create settings = .ok start)
    (operations : List Operation) (horderly : start.Orderly operations)
    (hsecluded : start.Secluded h operations) : start.Unhindered h operations := by
  constructor
  case unopposed =>
    intro before operation after t b hcut ho huser
    subst hcut
    obtain ⟨hbefore, -⟩ := (start.orderly_append before _).1 horderly
    exact hsecluded.unopposed hcreate hbefore rfl ho huser b
  case commits =>
    intro before after t hcut ho hrw hproper
    subst hcut
    obtain ⟨hbefore, -⟩ := (start.orderly_append before _).1 horderly
    have hundoomed := hsecluded.undoomed hcreate hbefore hproper ho hrw
    have hnone := hsecluded.unobserved hcreate ho hrw hundoomed
    rw [finish_eq_true_iff ho]
    refine ⟨hundoomed, ?_⟩
    rw [Transaction.observationsHold, hnone]
    rfl

/-- One transaction writes the first word of a segment and allocates, another one
    the other two words, and a third one reads all of them. The first one gives
    up and ends, and a collection follows. -/
def neighbours : List Operation :=
  [.begin false, .begin false, .begin true, .write 0 Region.start (List.replicate 8 1),
    .alloc 0 8 true, .write 1 (Region.start.advance 8) (List.replicate 16 2), .alloc 1 8 true,
    .read 2 Region.start 24, .abort 0, .finish 0, .collect,
    .write 1 (.ofParts 2 0) (List.replicate 8 3), .free 1 (.ofParts 2 0)]

/-- The second one commits. -/
theorem run_unhindered_neighbour :
    ∃ start, create { size := 24, align := 8 } = .ok start ∧
      start.Unhindered 1 (neighbours ++ [.finish 1]) ∧
      ((start.run neighbours).2.finish 1).1 = some true := by
  refine ⟨_, rfl, ?_⟩
  have hall := @run_unhindered _ 1 { size := 24, align := 8 } rfl (neighbours ++ [.finish 1])
    (by decide +kernel) (by decide +kernel)
  exact ⟨hall, hall.commits neighbours [] _ rfl (Option.some_get (by decide +kernel)).symm
    (by decide +kernel) (by decide +kernel)⟩

end Session

end TransactionalMemory
