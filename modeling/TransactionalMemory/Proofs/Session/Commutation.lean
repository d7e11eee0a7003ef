import TransactionalMemory.Proofs.Session.Territory
import TransactionalMemory.Proofs.Transaction.Independence

/-! # Accesses to different words commute

    Two transactions access one range each, and the ranges have no word in
    common. Then it does not matter which one comes first: each access returns
    what it would have returned alone, and the session is the same in the end,
    down to the order of every log. This holds also if one of them or both stop
    early because a third transaction is in the way.

    An access changes the region by a list of edits of its own words, and what it
    comes to does not depend on edits of other words. So nothing is left to
    show but that edits of different words commute, in one segment or in two. -/

namespace TransactionalMemory

namespace Region

variable {r : Region} {n m count : Nat} {es fs : List Edit} {first : WordRef}
  {words : List WordRef}

/-! ## Edits of a region -/

/-- The region after edits of segment `n`. -/
def edited (r : Region) (n : Nat) (es : List Edit) : Region := r.updateSegment n (·.edited es)

theorem segment?_edited (r : Region) (n m : Nat) (es : List Edit) :
    (r.edited n es).segment? m = (r.segment? m).map (·.edited (if n = m then es else [])) := by
  unfold edited
  by_cases hn : n = m
  · subst hn
    rw [segment?_updateSegment_self, if_pos rfl]
  · rw [segment?_updateSegment_ne r _ hn, if_neg hn]
    cases r.segment? m <;> rfl

theorem edited_nil (r : Region) (n : Nat) : r.edited n [] = r :=
  updateSegment_eq_self fun _ _ => rfl

/-- Edits of different words of a region commute. -/
theorem edited_comm (r : Region)
    (h : ∀ e ∈ es, ∀ f ∈ fs, (⟨n, e.word⟩ : WordRef) ≠ ⟨m, f.word⟩) :
    (r.edited n es).edited m fs = (r.edited m fs).edited n es := by
  unfold edited updateSegment
  congr 1
  apply Array.ext_getElem?
  intro i
  simp only [Array.getElem?_modify]
  by_cases hn : n = i
  · by_cases hm : m = i
    · -- Both change the same segment.
      have hwords : ∀ e ∈ es, ∀ f ∈ fs, e.word ≠ f.word := by
        intro e he f hf heq
        exact h e he f hf (by rw [hn, hm, heq])
      rw [if_pos hn, if_pos hm, if_pos hm, if_pos hn]
      rcases r.segments[i]? with _ | _ | s
      · rfl
      · rfl
      · exact congrArg (fun s => some (some s)) (s.edited_comm hwords)
    · rw [if_neg hm, if_neg hm]
  · rw [if_neg hn, if_neg hn]

theorem wordSize_edited (r : Region) (n : Nat) (es : List Edit) :
    (r.edited n es).wordSize = r.wordSize := rfl

/-- Edits change no size. -/
theorem size_segment?_edited (r : Region) (n m : Nat) (es : List Edit) :
    ((r.edited n es).segment? m).elim 0 Segment.size = (r.segment? m).elim 0 Segment.size := by
  rw [segment?_edited]
  cases r.segment? m with
  | none => rfl
  | some s => exact (s.size_edited _).1

theorem resolve_edited (t : Transaction) (r : Region) (n : Nat) (es : List Edit) (a : Address)
    (length : Nat) : t.resolve (r.edited n es) a length = t.resolve r a length := by
  have hreach : ∀ slot, t.reach (r.edited n es) a slot = t.reach r a slot := fun _ => rfl
  unfold Transaction.resolve
  simp only [hreach, size_segment?_edited, wordSize_edited]

/-! ## Operations that keep to some words -/

/-- What an operation comes to depends on these words of the region and on no
    others, and it edits these words only. -/
def Confined {α : Type} (r : Region) (words : List WordRef) (operation : Region → Outcome α) :
    Prop :=
  ∃ n es, (∀ e ∈ es, (⟨n, e.word⟩ : WordRef) ∈ words) ∧
    ∀ m fs, (∀ f ∈ fs, (⟨m, f.word⟩ : WordRef) ∉ words) →
      operation (r.edited m fs) =
        ⟨(operation r).value, (operation r).transaction, (r.edited m fs).edited n es⟩

namespace Confined

variable {α : Type} {operation : Region → Outcome α}

/-- An operation that leaves the region as it is. -/
theorem unchanged (h : ∀ m fs, (∀ f ∈ fs, (⟨m, f.word⟩ : WordRef) ∉ words) →
    operation (r.edited m fs) =
      ⟨(operation r).value, (operation r).transaction, r.edited m fs⟩) :
    r.Confined words operation := by
  refine ⟨0, [], List.forall_mem_nil _, ?_⟩
  intro m fs houtside
  rw [h m fs houtside, edited_nil]

/-- What it leaves behind, in the region as it is and after edits of other words. -/
theorem inv (h : r.Confined words operation) :
    ∃ n es, (∀ e ∈ es, (⟨n, e.word⟩ : WordRef) ∈ words) ∧
      operation r = ⟨(operation r).value, (operation r).transaction, r.edited n es⟩ ∧
      ∀ m fs, (∀ f ∈ fs, (⟨m, f.word⟩ : WordRef) ∉ words) → operation (r.edited m fs) =
        ⟨(operation r).value, (operation r).transaction, (r.edited m fs).edited n es⟩ := by
  obtain ⟨n, es, hes, hsame⟩ := h
  have hself := hsame 0 [] (List.forall_mem_nil _)
  rw [edited_nil] at hself
  exact ⟨n, es, hes, hself, hsame⟩

end Confined

/-- Edits outside a range are edits of other words of its segment, or of another one. -/
theorem others_of_outside (hwords : ∀ ref, ref ∈ words ↔ first.Within count ref)
    (houtside : ∀ f ∈ fs, (⟨m, f.word⟩ : WordRef) ∉ words) :
    ∀ f ∈ (if m = first.segment then fs else []),
      ¬ Transaction.InRange first.word count f.word := by
  intro f hf hrange
  split at hf
  next hm => exact houtside f hf ((hwords _).2 ⟨hm, hrange.1, hrange.2⟩)
  next => cases hf

/-- A pass that depends on the words of its range, in the place of its segment. -/
theorem confined_ofPass {α : Type} (a : Address) {s : Segment}
    {pass : Segment → Transaction.Pass α} {operation : Region → Outcome α}
    (hfound : r.segment? first.segment = some s)
    (hwords : ∀ ref, ref ∈ words ↔ first.Within count ref)
    (hpass : s.Confined (Transaction.InRange first.word count) fun s => (pass s).parts)
    (hoperation : ∀ m fs s', (r.edited m fs).segment? first.segment = some s' →
      operation (r.edited m fs) = Transaction.ofPass (r.edited m fs) a first (pass s')) :
    r.Confined words operation := by
  obtain ⟨es, hes, hsame⟩ := hpass
  -- What the operation comes to, by what the pass comes to in the segment as it is.
  have houtcome : ∀ m fs, (∀ f ∈ fs, (⟨m, f.word⟩ : WordRef) ∉ words) →
      operation (r.edited m fs) =
        { Transaction.ofPass r a first (pass s) with
          region := (r.edited m fs).edited first.segment es } := by
    intro m fs houtside
    have hsegment := r.segment?_edited m first.segment fs
    rw [hfound, Option.map_some] at hsegment
    have hparts := hsame _ (others_of_outside hwords houtside)
    obtain ⟨hvalue, hafter⟩ := Prod.mk.inj hparts
    obtain ⟨hvalue, htransaction⟩ := Prod.mk.inj hvalue
    have hregion : ((r.edited m fs).updateSegment first.segment fun _ =>
        (pass (s.edited (if m = first.segment then fs else []))).segment) =
          (r.edited m fs).edited first.segment es := by
      apply updateSegment_congr
      intro s' hs'
      rw [hsegment] at hs'
      cases hs'
      exact hafter
    rw [hoperation m fs _ hsegment]
    unfold Transaction.ofPass
    dsimp only
    rw [hregion, hvalue, htransaction]
    cases (pass s).value with
    | ok value => rfl
    | error w => rfl
  have hself := houtcome 0 [] (List.forall_mem_nil _)
  rw [edited_nil] at hself
  refine ⟨first.segment, es, ?_, ?_⟩
  · intro e he
    obtain ⟨hlow, hhigh⟩ := hes e he
    exact (hwords _).2 ⟨rfl, hlow, hhigh⟩
  · intro m fs houtside
    rw [houtcome m fs houtside, hself]

end Region

namespace Transaction

variable (t : Transaction) (r : Region) (a : Address)

/-- A read keeps to the words of its range. -/
theorem confined_read (length : Nat) : r.Confined (r.span a length) fun r => t.read r a length := by
  cases hd : t.doomed with
  | true =>
    apply Region.Confined.unchanged
    intro m fs houtside
    simp [read, hd, refuse]
  | false =>
    cases hresolve : t.resolve r a length with
    | error failure =>
      apply Region.Confined.unchanged
      intro m fs houtside
      simp [read, hd, Region.resolve_edited, hresolve, fail]
    | ok first =>
      obtain ⟨slot, hresolved⟩ := resolve_eq_ok_iff.1 hresolve
      have hwords := Region.mem_span_iff hresolved
      cases hfound : r.segment? first.segment with
      | none =>
        apply Region.Confined.unchanged
        intro m fs houtside
        simp [read, hd, Region.resolve_edited, hresolve, fail, Region.segment?_edited, hfound]
      | some s =>
        cases hro : t.isReadOnly with
        | true =>
          apply Region.Confined.unchanged
          intro m fs houtside
          have hcommitted := committedWords_edited s (Region.others_of_outside hwords houtside)
          simp [read, hd, hro, Region.resolve_edited, hresolve, Region.segment?_edited, hfound,
            Region.wordSize_edited, hcommitted]
        | false =>
          apply Region.confined_ofPass a hfound hwords
            (t.confined_readWords s first.segment first.word (length / r.wordSize) #[])
          intro m fs s' hfound'
          simp only [read, hd, hro, Region.resolve_edited, hresolve, hfound',
            Region.wordSize_edited, Bool.false_eq_true, if_false]

/-- And so does a write. -/
theorem confined_write (bytes : List UInt8) :
    r.Confined (r.span a bytes.length) fun r => t.write r a bytes := by
  cases hd : t.doomed with
  | true =>
    apply Region.Confined.unchanged
    intro m fs houtside
    simp [write, hd, refuse]
  | false =>
    cases hro : t.isReadOnly with
    | true =>
      apply Region.Confined.unchanged
      intro m fs houtside
      simp [write, hd, hro, fail]
    | false =>
      cases hresolve : t.resolve r a bytes.length with
      | error failure =>
        apply Region.Confined.unchanged
        intro m fs houtside
        simp [write, hd, hro, Region.resolve_edited, hresolve, fail]
      | ok first =>
        obtain ⟨slot, hresolved⟩ := resolve_eq_ok_iff.1 hresolve
        have hwords := Region.mem_span_iff hresolved
        cases hfound : r.segment? first.segment with
        | none =>
          apply Region.Confined.unchanged
          intro m fs houtside
          simp [write, hd, hro, Region.resolve_edited, hresolve, fail, Region.segment?_edited,
            hfound]
        | some s =>
          apply Region.confined_ofPass a hfound hwords
            (t.confined_writeWords s first.segment r.wordSize first.word
              (bytes.length / r.wordSize) bytes)
          intro m fs s' hfound'
          simp only [write, hd, hro, Region.resolve_edited, hresolve, hfound',
            Region.wordSize_edited, Bool.false_eq_true, if_false]

end Transaction

/-- Whether the operation is a read or a write of transaction `h`. -/
def Operation.IsAccessOf (h : Handle) : Operation → Prop
  | .read k _ _ | .write k _ _ => k = h
  | .begin _ | .alloc .. | .free .. | .abort _ | .finish _ | .abandon _ | .collect => False

instance (h : Handle) : (operation : Operation) → Decidable (operation.IsAccessOf h)
  | .read k _ _ | .write k _ _ => inferInstanceAs (Decidable (k = h))
  | .begin _ | .alloc .. | .free .. | .abort _ | .finish _ | .abandon _ | .collect =>
    inferInstanceAs (Decidable False)

namespace Session

variable {s start : Session} {h k : Handle} {t : Transaction} {a b : Operation}
  {words words' : List WordRef}

/-! ## Two accesses -/

/-- What becomes of one transaction and what becomes of another one commute. -/
theorem put_comm (s : Session) (hne : h ≠ k) (o o' : Option Transaction) (r r' r'' : Region) :
    (s.put h o r).put k o' r'' = (s.put k o' r').put h o r'' := by
  unfold put
  rw [Array.setIfInBounds_comm o o' hne]

/-- It does not matter which of two operations comes first. -/
structure Commute (s : Session) (a b : Operation) : Prop where
  first : ((s.step b).2.step a).1 = (s.step a).1
  second : ((s.step a).2.step b).1 = (s.step b).1
  state : ((s.step a).2.step b).2 = ((s.step b).2.step a).2

section

variable {α β : Type} {operation : Transaction → Region → Outcome α}
  {operation' : Transaction → Region → Outcome β}

theorem access_of_closed (operation : Transaction → Region → Outcome α)
    (ho : s.open? h = none) : s.access h operation = (none, s) := by
  unfold access
  rw [ho]

/-- What an operation that keeps to some words leaves behind. -/
theorem access_of_edited (ho : s.open? h = some t) {r : Region}
    (hedited : operation t s.region =
      ⟨(operation t s.region).value, (operation t s.region).transaction, r⟩) :
    (s.access h operation).2 = s.put h (some (operation t s.region).transaction) r := by
  rw [access_of_open operation ho, hedited]

/-- Two operations of different transactions that keep to different words. -/
theorem access_commute (hne : h ≠ k) (hop : ∀ t, s.region.Confined words (operation t))
    (hop' : ∀ u, s.region.Confined words' (operation' u))
    (hapart : ∀ ref ∈ words, ref ∉ words') :
    ((s.access k operation').2.access h operation).1 = (s.access h operation).1 ∧
      ((s.access h operation).2.access k operation').2 =
        ((s.access k operation').2.access h operation).2 := by
  have ho' := s.open?_access_ne operation' (Ne.symm hne)
  have hu' := s.open?_access_ne operation hne
  cases ho : s.open? h with
  | none =>
    rw [ho] at ho'
    rw [access_of_closed operation ho, access_of_closed operation ho']
    exact ⟨rfl, rfl⟩
  | some t =>
    cases hu : s.open? k with
    | none =>
      rw [hu] at hu'
      rw [access_of_closed operation' hu, access_of_closed operation' hu']
      exact ⟨rfl, rfl⟩
    | some u =>
      obtain ⟨n, es, hes, hself, hsame⟩ := (hop t).inv
      obtain ⟨m, fs, hfs, hself', hsame'⟩ := (hop' u).inv
      -- Each operation finds the region as the other one has edited it.
      have hsecond := hsame m fs fun f hf hmem => hapart _ hmem (hfs f hf)
      have hsecond' := hsame' n es fun e he => hapart _ (hes e he)
      have hcommute : (s.region.edited n es).edited m fs = (s.region.edited m fs).edited n es := by
        apply Region.edited_comm
        intro e he f hf heq
        exact hapart _ (hes e he) (heq ▸ hfs f hf)
      rw [ho] at ho'
      rw [hu] at hu'
      rw [access_of_open operation ho', access_of_open operation' hu', access_of_edited ho hself,
        access_of_edited hu hself', region_put, region_put, hsecond, hsecond', hcommute]
      constructor
      · rw [access_of_open operation ho]
      · exact s.put_comm hne _ _ _ _ _

end

/-- An access is an operation of its transaction that keeps to the words it asks for. -/
theorem exists_access (hb : b.IsAccessOf k) :
    ∃ (α : Type) (answer : Option (Except Failure α) → Answer)
      (operation : Transaction → Region → Outcome α), ∀ s : Session,
        s.step b = (answer (s.access k operation).1, (s.access k operation).2) ∧
          ∀ u, s.region.Confined (s.askedWords b) (operation u) := by
  cases b with
  | read j x length =>
    obtain rfl : j = k := hb
    exact ⟨_, .bytes, fun t r => t.read r x length,
      fun s => ⟨rfl, fun u => u.confined_read s.region x length⟩⟩
  | write j x bytes =>
    obtain rfl : j = k := hb
    exact ⟨_, .done, fun t r => t.write r x bytes,
      fun s => ⟨rfl, fun u => u.confined_write s.region x bytes⟩⟩
  | _ => exact hb.elim

/-- Accesses of different transactions to different words commute. -/
theorem commute_of_apart (hne : h ≠ k) (ha : a.IsAccessOf h) (hb : b.IsAccessOf k)
    (hapart : ∀ ref ∈ s.askedWords a, ref ∉ s.askedWords b) : s.Commute a b := by
  obtain ⟨α, answer, operation, haccess⟩ := exists_access ha
  obtain ⟨β, answer', operation', haccess'⟩ := exists_access hb
  have hstep := fun s => (haccess s).1
  have hstep' := fun s => (haccess' s).1
  have hapart' : ∀ ref ∈ s.askedWords b, ref ∉ s.askedWords a :=
    fun ref hmem hmem' => hapart ref hmem' hmem
  obtain ⟨hfirst, hstate⟩ := access_commute hne (haccess s).2 (haccess' s).2 hapart
  obtain ⟨hsecond, -⟩ := access_commute (Ne.symm hne) (haccess' s).2 (haccess s).2 hapart'
  constructor
  · rw [hstep s, hstep' s, hstep, hfirst]
  · rw [hstep s, hstep' s, hstep', hsecond]
  · rw [hstep s, hstep' s, hstep, hstep', hstate]

/-! ## Runs -/

theorem run_cons (s : Session) (operation : Operation) (rest : List Operation) :
    s.run (operation :: rest) =
      ((s.step operation).1 :: ((s.step operation).2.run rest).1,
        ((s.step operation).2.run rest).2) := rfl

/-- Wherever two accesses by different transactions follow each other in a run and
    have no word in common, they can be exchanged: so are their answers, and
    nothing else changes, in the session or in what comes later. -/
theorem run_accesses_commute {before : List Operation} (hs : (start.run before).2 = s)
    (hne : h ≠ k) (ha : a.IsAccessOf h) (hb : b.IsAccessOf k)
    (hapart : ∀ ref ∈ s.askedWords a, ref ∉ s.askedWords b) :
    s.Commute a b ∧ ∀ after, ∃ last s',
      start.run (before ++ a :: b :: after) =
          ((start.run before).1 ++ (s.step a).1 :: (s.step b).1 :: last, s') ∧
        start.run (before ++ b :: a :: after) =
          ((start.run before).1 ++ (s.step b).1 :: (s.step a).1 :: last, s') := by
  have hcommute := commute_of_apart hne ha hb hapart
  refine ⟨hcommute, ?_⟩
  intro after
  obtain ⟨last, s', hlater⟩ : ∃ last s', ((s.step a).2.step b).2.run after = (last, s') :=
    ⟨_, _, rfl⟩
  have hfirst : s.run (a :: b :: after) = ((s.step a).1 :: (s.step b).1 :: last, s') := by
    rw [run_cons, run_cons, hcommute.second, hlater]
  have hsecond : s.run (b :: a :: after) = ((s.step b).1 :: (s.step a).1 :: last, s') := by
    rw [run_cons, run_cons, hcommute.first, ← hcommute.state, hlater]
  subst hs
  refine ⟨last, s', ?_, ?_⟩
  · rw [run_append]
    dsimp only
    rw [hfirst]
  · rw [run_append]
    dsimp only
    rw [hsecond]

/-- Three transactions are open, and the first one has written the words 1 and 4. -/
def scattered : List Operation :=
  [.begin false, .begin false, .begin false,
    .write 0 (Region.start.advance 8) (List.replicate 8 1),
    .write 0 (Region.start.advance 32) (List.replicate 8 1)]

/-- The two others come upon these words in the middle of their ranges, and have
    accessed a word each by then. -/
theorem run_accesses_commute_stopped :
    ∃ start s, create { size := 48, align := 8 } = .ok start ∧ (start.run scattered).2 = s ∧
      s.Commute (.read 1 Region.start 24)
        (.write 2 (Region.start.advance 24) (List.replicate 24 2)) ∧
      (s.step (.read 1 Region.start 24)).1.failure? =
        some (.conflict (Region.start.advance 8)) ∧
      (s.step (.write 2 (Region.start.advance 24) (List.replicate 24 2))).1.failure? =
        some (.conflict (Region.start.advance 32)) := by
  refine ⟨_, _, rfl, rfl, ?_, by decide +kernel, by decide +kernel⟩
  apply And.left
  apply run_accesses_commute (h := 1) (k := 2)
  · rfl
  · decide
  · decide
  · decide
  · decide +kernel

end Session

end TransactionalMemory
