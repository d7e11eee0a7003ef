import TransactionalMemory.Proofs.Transaction.Conclusion
import TransactionalMemory.Proofs.Transaction.Outcomes

/-! # What operations do not look at

    A region has a gate and a collector and counts who has committed and who has
    not, and a transaction knows the epoch that it pins. All this is there for
    admission, for the release of segments and for statistics.

    - No operation of a transaction looks at it: in a region with another gate,
      another collector and other counters, a transaction that pins another epoch
      is answered the same, and leaves the same behind.
    - The end of a transaction that gives up no segment changes nothing else but
      the words that the transaction has claimed.
    - A read-only transaction changes nothing at all before it ends.
    - A collection where nothing waits does nothing.

    A region is at ease if its gate is always open and nothing waits in it. -/

namespace TransactionalMemory

namespace Region

/-! ## Regions under another gate and collector -/

/-- The region, with the gate, the collector and the counters of region `x`. -/
def under (r x : Region) : Region :=
  { r with gate := x.gate, collector := x.collector, commits := x.commits, aborts := x.aborts }

variable {r x y : Region}

@[simp] theorem under_under (r x y : Region) : (r.under x).under y = r.under y := rfl

@[simp] theorem segment?_under (r x : Region) (n : Nat) :
    (r.under x).segment? n = r.segment? n := rfl

@[simp] theorem wordSize_under (r x : Region) : (r.under x).wordSize = r.wordSize := rfl

@[simp] theorem table_under (r x : Region) : (r.under x).table = r.table := rfl

theorem settleWords_under (r x : Region) (id : TransactionId) (committed : Bool)
    (refs : List WordRef) :
    (r.under x).settleWords id committed refs = (r.settleWords id committed refs).under x := by
  induction refs with
  | nil => rfl
  | cons first rest ih =>
    simp only [settleWords, List.foldr_cons] at ih ⊢
    rw [ih]
    rfl

/-- An allocation looks at none of these. -/
theorem tryAllocate_under (r x : Region) (size : Nat) (memory : Bool) :
    (r.under x).tryAllocate size memory =
      ((r.tryAllocate size memory).1, (r.tryAllocate size memory).2.under x) := by
  have hcharge : ∀ bytes, (r.under x).charge? bytes = r.charge? bytes := fun _ => rfl
  unfold tryAllocate
  simp only [hcharge, wordSize_under, table_under]
  by_cases hlarge : maxSegmentBytes < size
  · rw [if_pos hlarge, if_pos hlarge]
  rw [if_neg hlarge, if_neg hlarge]
  cases r.charge? (footprint size r.wordSize) with
  | none => rfl
  | some used =>
    dsimp only
    cases r.table.reserve? with
    | none => rfl
    | some reserved =>
      dsimp only
      cases Segment.create? reserved.1 size r.wordSize memory with
      | none => rfl
      | some segment => rfl

/-- Where nothing waits, a collection does nothing. -/
theorem collect_of_idle (h : r.collector.pending = 0) : r.collect = (0, r) := by
  have htaken : r.collector.takeExpired = ([], r.collector) := by
    unfold Collector.takeExpired
    rw [if_pos h]
  unfold collect
  rw [htaken]
  rfl

/-- Nobody has to wait at the gate, and nothing waits to be released. -/
structure AtEase (r : Region) : Prop where
  optimistic : r.gate.policy = .optimistic
  pending : r.collector.pending = 0

/-- Letting a transaction in does not change that. -/
theorem AtEase.enter (hease : r.AtEase) (mode : Mode) : AtEase (r.enter mode).2 where
  optimistic := (Gate.policy_enter _ _).trans hease.optimistic
  pending := hease.pending

end Region

/-- The transaction, pinning epoch `e`. -/
def Transaction.inEpoch (t : Transaction) (e : Nat) : Transaction := { t with epoch := e }

/-- The outcome, for a transaction that pins epoch `e`, in a region with the gate,
    the collector and the counters of region `x`. -/
def Outcome.under {α : Type} (o : Outcome α) (e : Nat) (x : Region) : Outcome α :=
  ⟨o.value, o.transaction.inEpoch e, o.region.under x⟩

/-- A test with the same result on both sides. -/
theorem Outcome.under_ite {α : Type} {c : Prop} [Decidable c] {o o' p p' : Outcome α} {e : Nat}
    {x : Region} (hthen : o' = o.under e x) (helse : p' = p.under e x) :
    (if c then o' else p') = (if c then o else p).under e x := by
  split
  · exact hthen
  · exact helse

namespace Transaction

variable {α : Type} {t : Transaction} {r x : Region} {e : Nat} {committed : Bool}

/-- Neither the epoch that the transaction pins nor the gate, the collector and the
    counters of the region matter to an operation. -/
def Blind (operation : Transaction → Region → Outcome α) : Prop :=
  ∀ t r e x, operation (t.inEpoch e) (r.under x) = (operation t r).under e x

/-! ## Ranges -/

theorem resolve_under (t : Transaction) (r x : Region) (e : Nat) (a : Address) (length : Nat) :
    (t.inEpoch e).resolve (r.under x) a length = t.resolve r a length := rfl

theorem log_inEpoch (t : Transaction) (e : Nat) (ref : WordRef) (g : Grant) :
    (t.inEpoch e).log ref g = (t.log ref g).inEpoch e := by
  cases g <;> rfl

/-- The pass, for a transaction that pins epoch `e`. -/
def Pass.inEpoch (pass : Pass α) (e : Nat) : Pass α :=
  { pass with transaction := pass.transaction.inEpoch e }

theorem readWords_inEpoch (t : Transaction) (e : Nat) (s : Segment) (n first count : Nat)
    (soFar : Array UInt8) :
    (t.inEpoch e).readWords s n first count soFar =
      (t.readWords s n first count soFar).inEpoch e := by
  have hid : (t.inEpoch e).id = t.id := rfl
  induction count generalizing t s first soFar with
  | zero => rfl
  | succ count ih =>
    rw [readWords, readWords, hid]
    rcases s.readWord t.id first with ⟨_ | ⟨g, bytes⟩, s'⟩
    · rfl
    · dsimp only
      rw [log_inEpoch]
      exact ih _ s' (first + 1) (soFar ++ bytes) rfl

theorem writeWords_inEpoch (t : Transaction) (e : Nat) (s : Segment) (n wordSize first count : Nat)
    (bytes : List UInt8) :
    (t.inEpoch e).writeWords s n wordSize first count bytes =
      (t.writeWords s n wordSize first count bytes).inEpoch e := by
  have hid : (t.inEpoch e).id = t.id := rfl
  induction count generalizing t s first bytes with
  | zero => rfl
  | succ count ih =>
    rw [writeWords, writeWords, hid]
    rcases s.writeWord t.id first (bytes.take wordSize) with ⟨_ | g, s'⟩
    · rfl
    · dsimp only
      rw [log_inEpoch]
      exact ih _ s' (first + 1) (bytes.drop wordSize) rfl

theorem ofPass_under (r x : Region) (e : Nat) (a : Address) (first : WordRef) (pass : Pass α) :
    ofPass (r.under x) a first (pass.inEpoch e) = (ofPass r a first pass).under e x := by
  obtain ⟨value, after, s⟩ := pass
  cases value with
  | ok value => rfl
  | error w => rfl

/-! ## Operations -/

theorem blind_read (a : Address) (length : Nat) : Blind (·.read · a length) := by
  intro t r e x
  have hdoomed : (t.inEpoch e).doomed = t.doomed := rfl
  have hro : (t.inEpoch e).isReadOnly = t.isReadOnly := rfl
  dsimp only
  unfold read
  rw [hdoomed, hro, resolve_under]
  refine Outcome.under_ite rfl ?_
  cases t.resolve r a length with
  | error failure => rfl
  | ok first =>
    dsimp only [Region.segment?_under, Region.wordSize_under]
    cases r.segment? first.segment with
    | none => rfl
    | some s =>
      dsimp only
      rw [readWords_inEpoch]
      exact Outcome.under_ite rfl (ofPass_under ..)

theorem blind_write (a : Address) (bytes : List UInt8) : Blind (·.write · a bytes) := by
  intro t r e x
  have hdoomed : (t.inEpoch e).doomed = t.doomed := rfl
  have hro : (t.inEpoch e).isReadOnly = t.isReadOnly := rfl
  dsimp only
  unfold write
  rw [hdoomed, hro, resolve_under]
  refine Outcome.under_ite rfl (Outcome.under_ite rfl ?_)
  cases t.resolve r a bytes.length with
  | error failure => rfl
  | ok first =>
    dsimp only [Region.segment?_under, Region.wordSize_under]
    cases r.segment? first.segment with
    | none => rfl
    | some s =>
      dsimp only
      rw [writeWords_inEpoch]
      exact ofPass_under ..

theorem blind_alloc (size : Nat) (memory : Bool) : Blind (·.alloc · size memory) := by
  intro t r e x
  have hdoomed : (t.inEpoch e).doomed = t.doomed := rfl
  have hro : (t.inEpoch e).isReadOnly = t.isReadOnly := rfl
  dsimp only
  unfold alloc
  rw [hdoomed, hro, Region.wordSize_under, Region.tryAllocate_under]
  refine Outcome.under_ite rfl (Outcome.under_ite rfl (Outcome.under_ite rfl ?_))
  rcases r.tryAllocate size memory with ⟨_ | slot, r'⟩
  · rfl
  · rfl

theorem blind_free (a : Address) : Blind (·.free · a) := by
  intro t r e x
  have hdoomed : (t.inEpoch e).doomed = t.doomed := rfl
  have hro : (t.inEpoch e).isReadOnly = t.isReadOnly := rfl
  have hfreed : (t.inEpoch e).freed = t.freed := rfl
  dsimp only
  unfold free
  rw [hdoomed, hro, hfreed, Region.table_under]
  refine Outcome.under_ite rfl (Outcome.under_ite rfl ?_)
  cases freeable? a with
  | none => rfl
  | some slot =>
    dsimp only
    cases r.table.lookup slot with
    | live n => rfl
    | freeing n => exact Outcome.under_ite rfl rfl
    | retired n => rfl
    | vacant => rfl

/-! ## What only frees note -/

theorem freed_alloc (t : Transaction) (r : Region) (size : Nat) (memory : Bool) :
    (t.alloc r size memory).transaction.freed = t.freed := by
  cases t.alloc_cases r size memory with
  | refused doomed heq =>
    rw [heq]
    rfl
  | failed undoomed why heq =>
    rw [heq]
    rfl
  | scarce undoomed readWrite attempt heq => rw [heq]
  | granted undoomed readWrite whole enough found heq => rw [heq]

theorem freed_of_failed_free {a : Address} (hfailed : (t.free r a).value ≠ .ok ()) :
    (t.free r a).transaction.freed = t.freed := by
  cases t.free_cases r a with
  | refused doomed heq =>
    rw [heq]
    rfl
  | failed undoomed why heq =>
    rw [heq]
    rfl
  | marked undoomed readWrite freeable live heq =>
    rw [heq] at hfailed
    exact absurd rfl hfailed

/-! ## The end of a transaction -/

/-- If the transaction gives up no segment, then its end settles its words, and
    nothing is left to be released. -/
theorem conclusion_eq_under (hfreed : t.freed = [])
    (hallocated : committed = false → t.allocated = []) :
    t.conclusion r committed =
        (r.settleWords t.id committed t.touched).under (t.conclusion r committed) ∧
      (t.conclusion r committed).collector.pending = r.collector.pending ∧
      (t.conclusion r committed).gate.policy = r.gate.policy := by
  have hrest := (r.settleWords_spec t.id committed t.touched).1.rest
  have hpending : (r.settleWords t.id committed t.touched).collector.pending =
      r.collector.pending := by
    rw [hrest]
  have hpolicy : ((r.settleWords t.id committed t.touched).gate.leave t.isReadOnly).policy =
      r.gate.policy := by
    rw [Gate.policy_leave, hrest]
  cases committed with
  | true =>
    have hcommit : t.commit r = r.settleWords t.id true t.touched := by
      rw [commit_eq, rearranged, hfreed]
      rfl
    simp only [conclusion, if_true, hcommit]
    exact ⟨rfl, hpending, hpolicy⟩
  | false =>
    have hrollback : t.rollback r = r.settleWords t.id false t.touched := by
      rw [rollback_eq, rearranged, hfreed, hallocated rfl]
      rfl
    simp only [conclusion, Bool.false_eq_true, if_false, hrollback]
    exact ⟨rfl, hpending, hpolicy⟩

/-- Such an end does not look at the epoch, the collector and the counters either. -/
theorem conclusion_inEpoch (hfreed : t.freed = [])
    (hallocated : committed = false → t.allocated = []) (e : Nat) (x : Region) :
    (t.inEpoch e).conclusion (r.under x) committed =
      (t.conclusion r committed).under ((t.inEpoch e).conclusion (r.under x) committed) := by
  have hthis := (conclusion_eq_under (t := t) (r := r) hfreed hallocated).1
  have hother := (conclusion_eq_under (t := t.inEpoch e) (r := r.under x) hfreed hallocated).1
  have hsettled : (r.under x).settleWords (t.inEpoch e).id committed (t.inEpoch e).touched =
      (r.settleWords t.id committed t.touched).under x :=
    r.settleWords_under x t.id committed t.touched
  rw [hsettled, Region.under_under] at hother
  rw [hother, hthis]
  rfl

/-! ## Read-only transactions -/

/-- The transaction is read-only, and its logs are empty. -/
structure Unlogged (t : Transaction) : Prop where
  readOnly : t.isReadOnly = true
  touched : t.touched = []
  observed : t.observed = []
  allocated : t.allocated = []
  freed : t.freed = []

theorem Unlogged.doom (h : t.Unlogged) : t.doom.Unlogged :=
  ⟨h.readOnly, h.touched, h.observed, h.allocated, h.freed⟩

/-- All that the operation of a read-only transaction can do is to doom it. -/
def Passive (operation : Transaction → Region → Outcome α) : Prop :=
  ∀ t r, t.isReadOnly = true → (operation t r).region = r ∧
    ((operation t r).transaction = t ∨ (operation t r).transaction = t.doom)

theorem passive_read (a : Address) (length : Nat) : Passive (·.read · a length) := by
  intro t r hro
  dsimp only
  cases t.read_cases r a length with
  | refused doomed heq =>
    rw [heq]
    exact ⟨rfl, .inl rfl⟩
  | failed undoomed why heq =>
    rw [heq]
    exact ⟨rfl, .inr rfl⟩
  | shared undoomed readOnly resolved found heq =>
    rw [heq]
    exact ⟨rfl, .inl rfl⟩
  | passed undoomed readWrite resolved found heq => cases hro.symm.trans readWrite

/-- An operation that only read-write transactions may do fails. -/
theorem passive_of_refused {operation : Transaction → Region → Outcome α}
    (h : ∀ t r, t.isReadOnly = true →
      operation t r = if t.doomed then t.refuse r else t.fail r .readOnly) : Passive operation := by
  intro t r hro
  rw [h t r hro]
  split
  · exact ⟨rfl, .inl rfl⟩
  · exact ⟨rfl, .inr rfl⟩

theorem passive_write (a : Address) (bytes : List UInt8) : Passive (·.write · a bytes) := by
  apply passive_of_refused
  intro t r hro
  simp only [write, hro, if_true]

theorem passive_alloc (size : Nat) (memory : Bool) : Passive (·.alloc · size memory) := by
  apply passive_of_refused
  intro t r hro
  simp only [alloc, hro, if_true]

theorem passive_free (a : Address) : Passive (·.free · a) := by
  apply passive_of_refused
  intro t r hro
  simp only [free, hro, if_true]

end Transaction

end TransactionalMemory
