import TransactionalMemory.Proofs.Region.Numbering
import TransactionalMemory.Proofs.Session.Operations

/-! # Sessions that are alike

    Sessions are alike if their regions differ in how they keep the slot numbers
    to come, and in nothing else. Whatever is done to two of them is answered
    alike and leaves them alike.

    An allocation for which there is no memory leaves the session like it was. So
    nothing that is done later can tell whether it was made. -/

namespace TransactionalMemory

/-! ## Alike outcomes -/

/-- The outcomes are the same, but for how the slot numbers to come are kept. -/
structure Outcome.Alike {α : Type} (o o' : Outcome α) : Prop where
  value_eq : o'.value = o.value
  transaction_eq : o'.transaction = o.transaction
  region : o.region.Alike o'.region

/-- A test with the same result on both sides. -/
theorem Outcome.Alike.ite {α : Type} {c : Prop} [Decidable c] {o o' p p' : Outcome α}
    (hthen : o.Alike o') (helse : p.Alike p') :
    (if c then o else p).Alike (if c then o' else p') := by
  split
  · exact hthen
  · exact helse

namespace Region.Alike

variable {r r' : Region} (h : r.Alike r') (t : Transaction) (a : Address)

include h

theorem segment?_eq (n : Nat) : r'.segment? n = r.segment? n := by
  obtain ⟨table, -, rfl⟩ := h
  rfl

theorem wordSize_eq : r'.wordSize = r.wordSize := by
  obtain ⟨table, -, rfl⟩ := h
  rfl

theorem resolve_eq (length : Nat) : t.resolve r' a length = t.resolve r a length := by
  unfold Transaction.resolve Transaction.reach
  simp only [h.lookup_eq, h.segment?_eq, h.wordSize_eq]

theorem observationsHold_eq : t.observationsHold r' = t.observationsHold r := by
  unfold Transaction.observationsHold
  simp only [h.segment?_eq]

theorem refuse {α : Type} : (t.refuse r : Outcome α).Alike (t.refuse r') := ⟨rfl, rfl, h⟩

theorem fail {α : Type} (failure : Failure) :
    (t.fail r failure : Outcome α).Alike (t.fail r' failure) := ⟨rfl, rfl, h⟩

theorem ofPass {α : Type} (first : WordRef) (pass : Transaction.Pass α) :
    (Transaction.ofPass r a first pass).Alike (Transaction.ofPass r' a first pass) := by
  have hafter := h.updateSegment first.segment fun _ => pass.segment
  have hwordSize := hafter.wordSize_eq
  unfold Transaction.ofPass
  dsimp only
  cases pass.value with
  | ok value => exact ⟨rfl, rfl, hafter⟩
  | error w =>
    dsimp only
    rw [hwordSize]
    exact hafter.fail pass.transaction _

theorem read (length : Nat) : (t.read r a length).Alike (t.read r' a length) := by
  unfold Transaction.read
  simp only [h.resolve_eq, h.segment?_eq, h.wordSize_eq]
  refine .ite (h.refuse t) ?_
  cases t.resolve r a length with
  | error failure => exact h.fail t failure
  | ok first =>
    dsimp only
    cases r.segment? first.segment with
    | none => exact h.fail t _
    | some s => exact .ite ⟨rfl, rfl, h⟩ (h.ofPass a first _)

theorem write (bytes : List UInt8) : (t.write r a bytes).Alike (t.write r' a bytes) := by
  unfold Transaction.write
  simp only [h.resolve_eq, h.segment?_eq, h.wordSize_eq]
  refine .ite (h.refuse t) (.ite (h.fail t _) ?_)
  cases t.resolve r a bytes.length with
  | error failure => exact h.fail t failure
  | ok first =>
    dsimp only
    cases r.segment? first.segment with
    | none => exact h.fail t _
    | some s => exact h.ofPass a first _

theorem alloc (size : Nat) (memory : Bool) :
    (t.alloc r size memory).Alike (t.alloc r' size memory) := by
  obtain ⟨hslot, hafter⟩ := h.tryAllocate size memory
  unfold Transaction.alloc
  rw [h.wordSize_eq]
  refine .ite (h.refuse t) (.ite (h.fail t _) (.ite (h.fail t _) ?_))
  rcases hattempt : r.tryAllocate size memory with ⟨given, after⟩
  rcases hattempt' : r'.tryAllocate size memory with ⟨given', after'⟩
  rw [hattempt, hattempt'] at hslot hafter
  dsimp only at hslot hafter
  subst hslot
  cases given' with
  | none => exact ⟨rfl, rfl, hafter⟩
  | some slot => exact ⟨rfl, rfl, hafter⟩

theorem free : (t.free r a).Alike (t.free r' a) := by
  unfold Transaction.free
  simp only [h.lookup_eq]
  refine .ite (h.refuse t) (.ite (h.fail t _) ?_)
  cases Transaction.freeable? a with
  | none => exact h.fail t _
  | some slot =>
    dsimp only
    cases r.table.lookup slot with
    | live n => exact ⟨rfl, rfl, h.mark slot⟩
    | freeing n => exact .ite (h.fail t _) (h.fail t _)
    | retired n => exact h.fail t _
    | vacant => exact h.fail t _

end Region.Alike

namespace Session

variable {s s' s'' : Session}

/-! ## Alike sessions -/

/-- The sessions have the same transactions, in regions that are alike. -/
structure Alike (s s' : Session) : Prop where
  transactions_eq : s'.transactions = s.transactions
  region : s.region.Alike s'.region

/-- The results are the same, and the sessions that they leave behind are alike. -/
structure Matching {α : Type} (x y : α × Session) : Prop where
  answer_eq : y.1 = x.1
  session : x.2.Alike y.2

namespace Alike

theorem refl (s : Session) : s.Alike s := ⟨rfl, .refl s.region⟩

theorem open?_eq (hs : s.Alike s') (h : Handle) : s'.open? h = s.open? h := by
  rw [open?, open?, hs.transactions_eq]

theorem put (hs : s.Alike s') (h : Handle) (o : Option Transaction) {r r' : Region}
    (hr : r.Alike r') : (s.put h o r).Alike (s'.put h o r') := by
  constructor
  · show s'.transactions.setIfInBounds h o = s.transactions.setIfInBounds h o
    rw [hs.transactions_eq]
  · exact hr

/-- An operation of a transaction that matches in alike regions. -/
theorem access {α : Type} (hs : s.Alike s') (h : Handle)
    (operation : Transaction → Region → Outcome α)
    (hop : ∀ t, (operation t s.region).Alike (operation t s'.region)) :
    Matching (s.access h operation) (s'.access h operation) := by
  cases ho : s.open? h with
  | none =>
    have ho' := (hs.open?_eq h).trans ho
    unfold Session.access
    rw [ho, ho']
    exact ⟨rfl, hs⟩
  | some t =>
    rw [access_of_open _ ho, access_of_open _ ((hs.open?_eq h).trans ho)]
    constructor
    · exact congrArg some (hop t).value_eq
    · dsimp only
      rw [(hop t).transaction_eq]
      exact hs.put h _ (hop t).region

theorem begin (hs : s.Alike s') (readOnly : Bool) :
    Matching (s.begin readOnly) (s'.begin readOnly) := by
  obtain ⟨htransactions, table, htable, hregion⟩ := hs
  obtain ⟨region', transactions'⟩ := s'
  dsimp only at htransactions hregion
  subst htransactions hregion
  unfold Session.begin Region.identify?
  dsimp only
  by_cases hadmits : s.region.gate.admits readOnly = true
  · rw [if_pos hadmits, if_pos hadmits]
    by_cases hro : readOnly = true
    · rw [if_pos hro, if_pos hro]
      exact ⟨rfl, rfl, table, htable, rfl⟩
    rw [if_neg hro, if_neg hro]
    cases s.region.ids.mint? with
    | none => exact ⟨rfl, rfl, table, htable, rfl⟩
    | some minted => exact ⟨rfl, rfl, table, htable, rfl⟩
  · rw [if_neg hadmits, if_neg hadmits]
    exact ⟨rfl, rfl, table, htable, rfl⟩

theorem abort (hs : s.Alike s') (h : Handle) : (s.abort h).Alike (s'.abort h) := by
  unfold Session.abort
  rw [hs.open?_eq]
  cases s.open? h with
  | none => exact hs
  | some t => exact hs.put h _ hs.region

theorem collect (hs : s.Alike s') : Matching s.collect s'.collect := by
  obtain ⟨hreleased, hafter⟩ := hs.region.collect
  exact ⟨hreleased, hs.transactions_eq, hafter⟩

theorem finish (hs : s.Alike s') (h : Handle) : Matching (s.finish h) (s'.finish h) := by
  cases ho : s.open? h with
  | none =>
    have ho' := (hs.open?_eq h).trans ho
    unfold Session.finish
    rw [ho, ho']
    exact ⟨rfl, hs⟩
  | some t =>
    rw [finish_of_open ho, finish_of_open ((hs.open?_eq h).trans ho),
      hs.region.observationsHold_eq]
    have hended := hs.region.conclusion t (!t.doomed && t.observationsHold s.region)
    exact ⟨rfl, (hs.put h none hended).collect.session⟩

theorem abandon (hs : s.Alike s') (h : Handle) : (s.abandon h).Alike (s'.abandon h) := by
  unfold Session.abandon
  rw [hs.open?_eq]
  cases s.open? h with
  | none => exact hs
  | some t => exact hs.put h none (hs.region.conclusion t false)

/-- An operation is answered alike in sessions that are alike, and leaves them alike. -/
theorem step (hs : s.Alike s') (operation : Operation) :
    Matching (s.step operation) (s'.step operation) := by
  cases operation with
  | begin readOnly =>
    have hmatch := hs.begin readOnly
    exact ⟨congrArg Answer.begun hmatch.answer_eq, hmatch.session⟩
  | read h a length =>
    have hmatch := hs.access h (·.read · a length) fun t => hs.region.read t a length
    exact ⟨congrArg Answer.bytes hmatch.answer_eq, hmatch.session⟩
  | write h a bytes =>
    have hmatch := hs.access h (·.write · a bytes) fun t => hs.region.write t a bytes
    exact ⟨congrArg Answer.done hmatch.answer_eq, hmatch.session⟩
  | alloc h size memory =>
    have hmatch := hs.access h (·.alloc · size memory) fun t => hs.region.alloc t size memory
    exact ⟨congrArg Answer.allocated hmatch.answer_eq, hmatch.session⟩
  | free h a =>
    have hmatch := hs.access h (·.free · a) fun t => hs.region.free t a
    exact ⟨congrArg Answer.done hmatch.answer_eq, hmatch.session⟩
  | abort h => exact ⟨rfl, hs.abort h⟩
  | finish h =>
    have hmatch := hs.finish h
    exact ⟨congrArg Answer.ended hmatch.answer_eq, hmatch.session⟩
  | abandon h => exact ⟨rfl, hs.abandon h⟩
  | collect =>
    have hmatch := hs.collect
    exact ⟨congrArg Answer.released hmatch.answer_eq, hmatch.session⟩

/-- So does a whole run. -/
theorem run (hs : s.Alike s') (operations : List Operation) :
    Matching (s.run operations) (s'.run operations) := by
  induction operations generalizing s s' with
  | nil => exact ⟨rfl, hs⟩
  | cons operation rest ih =>
    obtain ⟨hanswer, hafter⟩ := hs.step operation
    obtain ⟨hanswers, hlast⟩ := ih hafter
    constructor
    · show (s'.step operation).1 :: ((s'.step operation).2.run rest).1
        = (s.step operation).1 :: ((s.step operation).2.run rest).1
      rw [hanswer, hanswers]
    · exact hlast

end Alike

/-- An allocation that finds no memory leaves the session like it was. -/
theorem Alike.of_attempt {h : Handle} {t : Transaction} {size : Nat} {memory : Bool} {r' : Region}
    (ho : s.open? h = some t) (attempt : s.region.tryAllocate size memory = (none, r')) :
    s.Alike (s.put h (some t) r') := by
  have hput := (refl s).put h (some t) (.of_failed attempt)
  rwa [put_self ho] at hput

/-- What is to come after `s'` is what is to come after `s`. -/
structure Indistinct (s s' : Session) : Prop where
  transactions_eq : s'.transactions = s.transactions
  stats_eq : s'.region.stats = s.region.stats
  lookup_eq : ∀ i, s'.region.table.lookup i = s.region.table.lookup i
  upcoming_eq : s'.region.table.upcoming = s.region.table.upcoming
  segments_eq : s'.region.segments = s.region.segments
  /-- Whatever is done later is answered alike, and leaves the sessions alike. -/
  later : ∀ operations, Matching (s.run operations) (s'.run operations)

theorem Alike.indistinct (hlike : s.Alike s') : s.Indistinct s' where
  transactions_eq := hlike.transactions_eq
  stats_eq := hlike.region.stats_eq
  lookup_eq := hlike.region.lookup_eq
  upcoming_eq := by
    obtain ⟨table, htable, hregion⟩ := hlike.region
    rw [hregion]
    exact htable.upcoming
  segments_eq := by
    obtain ⟨table, htable, hregion⟩ := hlike.region
    rw [hregion]
  later := hlike.run

end Session

end TransactionalMemory
