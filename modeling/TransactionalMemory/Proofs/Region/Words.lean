import TransactionalMemory.Proofs.Segment.Cells
import TransactionalMemory.Transaction.Basic

/-! # Words of a region

    The cell of a word of a region, and what an update of one segment does to
    the cells: an access to one word changes its cell alone, and nothing about
    the region but the contents of words. -/

namespace TransactionalMemory.Region

variable {r r' r'' : Region}

/-- The cell of a word, unless its segment was released or has no such word. -/
def cell? (r : Region) (ref : WordRef) : Option Cell :=
  (r.segment? ref.segment).bind fun s =>
    if ref.word < s.words then some (s.cell ref.word) else none

theorem cell?_eq_some_iff {ref : WordRef} {c : Cell} :
    r.cell? ref = some c ↔
      ∃ s, r.segment? ref.segment = some s ∧ ref.word < s.words ∧ s.cell ref.word = c := by
  unfold cell?
  rcases r.segment? ref.segment with _ | s
  · simp
  · by_cases hw : ref.word < s.words <;> simp [hw]

/-- The settings of a region tell how wide its words are. -/
theorem wordSize_congr (h : r'.settings = r.settings) : r'.wordSize = r.wordSize :=
  congrArg Settings.wordSize h

/-- A segment that has words was allocated. -/
theorem lt_size_of_cell? {ref : WordRef} {c : Cell} (h : r.cell? ref = some c) :
    ref.segment < r.segments.size := by
  obtain ⟨s, hs, -⟩ := cell?_eq_some_iff.1 h
  unfold segment? at hs
  by_cases hlt : ref.segment < r.segments.size
  · exact hlt
  · rw [Array.getElem?_eq_none (Nat.le_of_not_lt hlt)] at hs
    cases hs

/-- The committed value of a word, unless its segment was released or has no such word. -/
def committed? (r : Region) (ref : WordRef) : Option (List UInt8) :=
  (r.segment? ref.segment).bind fun s =>
    if ref.word < s.words then some (s.committedBytes ref.word) else none

theorem committed?_eq (r : Region) (ref : WordRef) :
    r.committed? ref = (r.cell? ref).map Cell.value := by
  unfold committed? cell?
  rcases r.segment? ref.segment with _ | s
  · rfl
  · by_cases hw : ref.word < s.words <;> simp [hw, Segment.cell]

/-- Every segment has rows of the right length, and the words of the region. -/
def Shaped (r : Region) : Prop :=
  ∀ n s, r.segment? n = some s → s.Shaped ∧ s.wordSize = r.wordSize

/-! ## Changes to the contents of words -/

/-- The two regions differ in the contents of words only. -/
structure SameButWords (r r' : Region) : Prop where
  rest : r' = { r with segments := r'.segments }
  size : r'.segments.size = r.segments.size
  layout : ∀ n, (r'.segment? n).map Segment.layout = (r.segment? n).map Segment.layout
  shaped : r.Shaped → r'.Shaped

namespace SameButWords

theorem refl (r : Region) : r.SameButWords r := ⟨rfl, rfl, fun _ => rfl, id⟩

theorem trans (h : r.SameButWords r') (h' : r'.SameButWords r'') : r.SameButWords r'' where
  rest := by rw [h'.rest, h.rest]
  size := h'.size.trans h.size
  layout := fun n => (h'.layout n).trans (h.layout n)
  shaped := h'.shaped ∘ h.shaped

theorem settings_eq (h : r.SameButWords r') : r'.settings = r.settings := by rw [h.rest]

theorem ids_eq (h : r.SameButWords r') : r'.ids = r.ids := by rw [h.rest]

theorem table_eq (h : r.SameButWords r') : r'.table = r.table := by rw [h.rest]

theorem collector_eq (h : r.SameButWords r') : r'.collector = r.collector := by rw [h.rest]

theorem wordSize_eq (h : r.SameButWords r') : r'.wordSize = r.wordSize :=
  wordSize_congr h.settings_eq

/-- The same words exist before and after. -/
theorem isSome_cell? (h : r.SameButWords r') (ref : WordRef) :
    (r'.cell? ref).isSome = (r.cell? ref).isSome := by
  have hlayout := h.layout ref.segment
  unfold cell?
  rcases hs : r.segment? ref.segment with _ | s <;>
    rcases hs' : r'.segment? ref.segment with _ | s'
  · rfl
  · rw [hs, hs'] at hlayout; cases hlayout
  · rw [hs, hs'] at hlayout; cases hlayout
  · rw [hs, hs'] at hlayout
    simp only [Option.map_some, Option.some.injEq, Segment.layout, Prod.mk.injEq] at hlayout
    simp only [Option.bind_some, hlayout.2.2.2]
    split <;> rfl

end SameButWords

/-- The change from `r` to `r'` makes `c` the cell of one word, and changes
    nothing else. -/
structure Becomes (r r' : Region) (ref : WordRef) (c : Cell) : Prop
    extends r.SameButWords r' where
  self : r'.cell? ref = some c
  others : ∀ other, other ≠ ref → r'.cell? other = r.cell? other

/-! ## Updates of a segment -/

theorem wordSize_updateSegment (r : Region) (n : Nat) (change : Segment → Segment) :
    (r.updateSegment n change).wordSize = r.wordSize := rfl

theorem size_segments_updateSegment (r : Region) (n : Nat) (change : Segment → Segment) :
    (r.updateSegment n change).segments.size = r.segments.size := by
  simp [updateSegment]

/-- Of two updates of one segment that forget what was there, the last one counts. -/
theorem updateSegment_const_const (r : Region) (n : Nat) (s s' : Segment) :
    (r.updateSegment n fun _ => s).updateSegment n (fun _ => s')
      = r.updateSegment n fun _ => s' := by
  unfold updateSegment
  congr 1
  apply Array.ext_getElem?
  intro i
  simp only [Array.getElem?_modify]
  split
  · rcases r.segments[i]? with _ | _ | s <;> rfl
  · rfl

/-- Two updates of a segment that agree on what is there do the same. -/
theorem updateSegment_congr {n : Nat} {change change' : Segment → Segment}
    (h : ∀ s, r.segment? n = some s → change s = change' s) :
    r.updateSegment n change = r.updateSegment n change' := by
  unfold updateSegment
  congr 1
  apply Array.ext_getElem?
  intro i
  rw [Array.getElem?_modify, Array.getElem?_modify]
  split
  next hi =>
    -- Only segment `n` is changed, if it was not released.
    subst hi
    unfold segment? at h
    rcases ho : r.segments[n]? with _ | _ | s
    · rfl
    · rfl
    · simp [h s (by rw [ho]; rfl)]
  next => rfl

/-- An update that leaves the segment as it is changes nothing. -/
theorem updateSegment_eq_self {n : Nat} {change : Segment → Segment}
    (h : ∀ s, r.segment? n = some s → change s = s) : r.updateSegment n change = r := by
  have hsame : r.updateSegment n id = r := by
    unfold updateSegment
    congr 1
    apply Array.ext_getElem?
    intro i
    rw [Array.getElem?_modify]
    split
    · rcases r.segments[i]? with _ | _ | s <;> rfl
    · rfl
  exact (updateSegment_congr h).trans hsame

/-- Putting back the segment that is there changes nothing. -/
theorem updateSegment_const_self {n : Nat} {s : Segment} (h : r.segment? n = some s) :
    (r.updateSegment n fun _ => s) = r := by
  apply updateSegment_eq_self
  intro s' hs'
  rw [h] at hs'
  exact Option.some.inj hs'

/-- Another segment of the same layout is put in the place of a segment. -/
theorem sameButWords_of_layout {n : Nat} {s s' : Segment} (hn : r.segment? n = some s)
    (hlayout : s'.layout = s.layout) (hshaped : s.Shaped → s'.Shaped) :
    r.SameButWords (r.updateSegment n fun _ => s') where
  rest := rfl
  size := r.size_segments_updateSegment n _
  layout := by
    intro m
    by_cases hm : n = m
    · subst hm
      rw [segment?_updateSegment_self, hn, Option.map_some, Option.map_some, Option.map_some,
        hlayout]
    · rw [segment?_updateSegment_ne r _ hm]
  shaped := by
    intro hr m t ht
    by_cases hm : n = m
    · subst hm
      rw [segment?_updateSegment_self, hn] at ht
      cases ht
      have hwordSize : s'.wordSize = s.wordSize := congrArg (fun l => l.2.2.1) hlayout
      exact ⟨hshaped (hr n s hn).1, hwordSize.trans (hr n s hn).2⟩
    · rw [segment?_updateSegment_ne r _ hm] at ht
      exact hr m t ht

/-- A change to one word of a segment is one to that word of the region. -/
theorem becomes_of_segment {n w : Nat} {s s' : Segment} {c : Cell} (hn : r.segment? n = some s)
    (hw : w < s.words) (h : s.Becomes s' w c) :
    r.Becomes (r.updateSegment n fun _ => s') ⟨n, w⟩ c := by
  have hwords : s'.words = s.words := congrArg (fun l => l.2.2.2) h.layout
  have hself : (r.updateSegment n fun _ => s').segment? n = some s' := by
    rw [segment?_updateSegment_self, hn]; rfl
  constructor
  · exact sameButWords_of_layout hn h.layout h.shaped
  · exact cell?_eq_some_iff.2 ⟨s', hself, by rw [hwords]; exact hw, h.self⟩
  · intro other hother
    unfold cell?
    by_cases hm : n = other.segment
    · -- Another word of the same segment.
      have hword : other.word ≠ w := fun heq => hother (by
        obtain ⟨m, v⟩ := other
        simp only at hm heq
        rw [hm, heq])
      rw [← hm, hself, hn]
      simp only [Option.bind_some, hwords, h.others _ hword]
    · rw [segment?_updateSegment_ne r _ hm]

/-! ## Settling words -/

/-- Commits or releases some words for a transaction, the last one of the list first. -/
def settleWords (r : Region) (id : TransactionId) (committed : Bool) (refs : List WordRef) :
    Region :=
  refs.foldr (fun ref r =>
    r.updateSegment ref.segment fun s => s.settleWord id committed ref.word) r

/-- Settling a word settles its cell and no other. A word that does not exist,
    or whose segment was released, has no accessor, and nothing happens. -/
theorem settleWord_spec (r : Region) (id : TransactionId) (committed : Bool) (ref : WordRef) :
    r.SameButWords (r.updateSegment ref.segment fun s => s.settleWord id committed ref.word) ∧
      ∀ other,
        (r.updateSegment ref.segment fun s => s.settleWord id committed ref.word).cell? other =
        if other = ref then (r.cell? other).map (·.settled id committed) else r.cell? other := by
  by_cases hword : ∃ s, r.segment? ref.segment = some s ∧ ref.word < s.words
  · -- The word exists: its segment is updated as it is, and the rest follows from its cell.
    obtain ⟨s, hs, hw⟩ := hword
    have hsame : (r.updateSegment ref.segment fun s => s.settleWord id committed ref.word)
        = r.updateSegment ref.segment fun _ => s.settleWord id committed ref.word := by
      apply updateSegment_congr
      intro s' hs'
      rw [hs] at hs'
      rw [Option.some.inj hs']
    have hbecomes := becomes_of_segment hs hw (Segment.settleWord_becomes id committed hw)
    rw [hsame]
    refine ⟨hbecomes.toSameButWords, fun other => ?_⟩
    split
    next heq =>
      rw [heq, cell?_eq_some_iff.2 ⟨s, hs, hw, rfl⟩]
      exact hbecomes.self
    next hne => exact hbecomes.others other hne
  · -- There is no such word: the update does nothing, and there is no cell.
    have hself : (r.updateSegment ref.segment fun s => s.settleWord id committed ref.word) = r := by
      apply updateSegment_eq_self
      intro s hs
      exact Segment.settleWord_of_words_le id committed
        (Nat.le_of_not_lt fun hw => hword ⟨s, hs, hw⟩)
    have hnone : r.cell? ref = none := by
      cases hc : r.cell? ref with
      | none => rfl
      | some c =>
        obtain ⟨s, hs, hw, -⟩ := cell?_eq_some_iff.1 hc
        exact absurd ⟨s, hs, hw⟩ hword
    rw [hself]
    refine ⟨.refl r, fun other => ?_⟩
    split
    next heq => rw [heq, hnone]; rfl
    next => rfl

/-- If one update changes what one word holds, then going through a list of words
    changes what those words hold. A word that is in the list twice is changed
    once, if doing it again changes nothing. -/
theorem foldr_words {α : Type} {holds : Region → WordRef → Option α} {change : α → α}
    (hagain : ∀ x, change (change x) = change x) {update : WordRef → Region → Region}
    (hupdate : ∀ r first ref, holds (update first r) ref =
      if ref = first then (holds r ref).map change else holds r ref)
    (r : Region) (refs : List WordRef) (ref : WordRef) :
    holds (refs.foldr update r) ref =
      if ref ∈ refs then (holds r ref).map change else holds r ref := by
  induction refs with
  | nil => rfl
  | cons first rest ih =>
    rw [List.foldr_cons, hupdate, ih]
    by_cases href : ref = first
    · rw [if_pos href, if_pos (List.mem_cons.2 (.inl href))]
      by_cases hmem : ref ∈ rest
      · rw [if_pos hmem, Option.map_map]
        exact congrArg (Option.map · (holds r ref)) (funext hagain)
      · rw [if_neg hmem]
    · simp [href]

/-- Settling words settles their cells and no other. -/
theorem settleWords_spec (r : Region) (id : TransactionId) (committed : Bool)
    (refs : List WordRef) :
    r.SameButWords (r.settleWords id committed refs) ∧
      ∀ ref, (r.settleWords id committed refs).cell? ref =
        if ref ∈ refs then (r.cell? ref).map (·.settled id committed) else r.cell? ref := by
  constructor
  · induction refs with
    | nil => exact .refl r
    | cons first rest ih => exact ih.trans (settleWord_spec _ id committed first).1
  · exact foldr_words (fun c => c.settled_settled id committed)
      (fun r first => (r.settleWord_spec id committed first).2) r refs

end TransactionalMemory.Region
