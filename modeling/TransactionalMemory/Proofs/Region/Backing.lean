import TransactionalMemory.Proofs.Region.Retention
import TransactionalMemory.Proofs.Region.Words

/-! # What a slot holds is there

    A slot never holds a segment that was released. `Backed` states this with
    what it rests on: a segment has one slot for its whole life, and before it
    waits for its release for the last time, it has left this slot.

    Other than `Slotted`, this is kept whatever the transactions do, also where
    one of them gives up a segment that another one has freed. -/

namespace TransactionalMemory.Region

variable {r r' r'' : Region}

/-- The segment of a retirement was allocated, and no slot holds it but the one
    that is still to be emptied. -/
def Leaving (r : Region) (x : Retirement) : Prop :=
  x.segment < r.segments.size ∧
    ∀ i, (r.table.lookup i).segment? = some x.segment → x.linked = true ∧ i = x.slot

/-- Every segment that a slot holds is there, and has the slot as its own; those
    that wait to be released are leaving. -/
structure Backed (r : Region) : Prop where
  held : ∀ i n, (r.table.lookup i).segment? = some n → r.slotOf? n = some i
  waiting : ∀ x ∈ r.collector.waiting, r.Leaving x

theorem lt_size_of_slotOf? {i n : Nat} (h : r.slotOf? n = some i) : n < r.segments.size := by
  by_cases hlt : n < r.segments.size
  · exact hlt
  · have hnone : r.slotOf? n = none := by
      simp [slotOf?, segment?, Array.getElem?_eq_none (Nat.le_of_not_lt hlt)]
    rw [hnone] at h
    cases h

/-- Segments keep their slots when the contents of words change. -/
theorem SameButWords.slotOf?_eq (h : r.SameButWords r') (n : Nat) : r'.slotOf? n = r.slotOf? n := by
  have hlayout := congrArg (Option.map Prod.fst) (h.layout n)
  simpa only [slotOf?, Option.map_map, Function.comp_def, Segment.layout] using hlayout

/-- A segment goes on leaving as long as slots only lose segments. -/
theorem Leaving.mono {x : Retirement} (h : r.Leaving x)
    (hsize : r.segments.size ≤ r'.segments.size)
    (hslots : ∀ i n, (r'.table.lookup i).segment? = some n →
      (r.table.lookup i).segment? = some n) : r'.Leaving x :=
  ⟨Nat.lt_of_lt_of_le h.1 hsize, fun i hi => h.2 i (hslots i _ hi)⟩

namespace Backed

/-- The segment in a slot. -/
theorem exists_segment (h : r.Backed) {i n : Nat} (hn : (r.table.lookup i).segment? = some n) :
    ∃ s, r.segment? n = some s := by
  obtain ⟨s, hs, -⟩ := Option.map_eq_some_iff.1 (h.held i n hn)
  exact ⟨s, hs⟩

/-- Slots may lose segments, as long as those that stay are not released. -/
theorem mono (h : r.Backed) (hsize : r.segments.size ≤ r'.segments.size)
    (hslots : ∀ i n, (r'.table.lookup i).segment? = some n →
      (r.table.lookup i).segment? = some n ∧ r'.slotOf? n = r.slotOf? n)
    (hwaiting : ∀ x ∈ r'.collector.waiting, x ∈ r.collector.waiting ∨ r'.Leaving x) :
    r'.Backed where
  held := by
    intro i n hn
    obtain ⟨hold, heq⟩ := hslots i n hn
    rw [heq]
    exact h.held i n hold
  waiting := by
    intro x hx
    rcases hwaiting x hx with hold | hleaving
    · exact (h.waiting x hold).mono hsize fun i n hn => (hslots i n hn).1
    · exact hleaving

theorem congr (h : r.Backed) (hslots : r'.slotOf? = r.slotOf?)
    (hsize : r'.segments.size = r.segments.size) (htable : r'.table = r.table)
    (hentries : r'.collector.entries = r.collector.entries) : r'.Backed := by
  refine h.mono (Nat.le_of_eq hsize.symm) (fun i n hn => ?_) (fun x hx => ?_)
  · rw [htable] at hn
    exact ⟨hn, by rw [hslots]⟩
  · rw [waiting_eq, hentries] at hx
    exact .inl hx

theorem of_sameButWords (hb : r.Backed) (h : r.SameButWords r') : r'.Backed :=
  hb.congr (funext h.slotOf?_eq) h.size h.table_eq (by rw [h.collector_eq])

end Backed

/-! ## Going through slots -/

/-- Going through slots changes each of them by `f`, no matter how often it is
    gone through. -/
theorem lookup_foldr {op : Nat → Region → Region} {f : Slot → Slot}
    (hop : ∀ (r : Region) i j,
      (op i r).table.lookup j = if j = i then f (r.table.lookup j) else r.table.lookup j)
    (hf : ∀ x, f (f x) = f x) (r : Region) (slots : List Nat) (j : Nat) :
    (slots.foldr op r).table.lookup j =
      if j ∈ slots then f (r.table.lookup j) else r.table.lookup j := by
  induction slots with
  | nil => rfl
  | cons i rest ih =>
    rw [List.foldr_cons, hop, ih]
    by_cases hj : j = i
    · subst hj
      rw [if_pos rfl, if_pos List.mem_cons_self]
      split
      · exact hf _
      · rfl
    · simp [hj]

theorem lookup_relink (r : Region) (i j : Nat) :
    (r.table.relink i).lookup j =
      if j = i then (r.table.lookup j).relinked else r.table.lookup j := by
  by_cases hj : j = i
  · rw [if_pos hj, hj]
    exact r.table.lookup_set_self i _
  · rw [if_neg hj]
    exact r.table.lookup_set_ne _ (Ne.symm hj)

theorem table_retire (r : Region) (i : Nat) (linked : Bool) (segment : Option Nat) :
    (retire r i linked segment).table = r.table := by
  cases segment <;> rfl

theorem lookup_retireFreed (r : Region) (i j : Nat) :
    (r.retireFreed i).table.lookup j =
      if j = i then (r.table.lookup j).markedRetired else r.table.lookup j := by
  have htable : (r.retireFreed i).table = (r.table.markRetired i).2 := table_retire ..
  rw [htable]
  by_cases hj : j = i
  · rw [if_pos hj, hj]
    exact r.table.lookup_set_self i _
  · rw [if_neg hj]
    exact r.table.lookup_set_ne _ (Ne.symm hj)

theorem lookup_retireAllocation (r : Region) (i j : Nat) :
    (r.retireAllocation i).table.lookup j = if j = i then .vacant else r.table.lookup j := by
  have htable : (r.retireAllocation i).table = (r.table.unlink i).2 := table_retire ..
  rw [htable]
  by_cases hj : j = i
  · rw [if_pos hj, hj]
    exact r.table.lookup_set_self i _
  · rw [if_neg hj]
    exact r.table.lookup_set_ne _ (Ne.symm hj)

/-- From `r` to `r'` nothing changes but slots and what waits in the collector. -/
structure Rearranges (r r' : Region) : Prop where
  rest : r' = { r with table := r'.table, collector := r'.collector }
  backed : r.Backed → r'.Backed

namespace Rearranges

theorem refl (r : Region) : r.Rearranges r := ⟨rfl, id⟩

theorem trans (h : r.Rearranges r') (h' : r'.Rearranges r'') : r.Rearranges r'' where
  rest := by rw [h'.rest, h.rest]
  backed := h'.backed ∘ h.backed

theorem foldr {op : Nat → Region → Region} (hop : ∀ (r : Region) i, r.Rearranges (op i r))
    (r : Region) (slots : List Nat) : r.Rearranges (slots.foldr op r) := by
  induction slots with
  | nil => exact .refl r
  | cons i rest ih => exact ih.trans (hop _ i)

end Rearranges

/-- A slot is given another state, with the segment that it holds. -/
theorem rearranges_restate (r : Region) (i : Nat) {f : Slot → Slot}
    (hf : ∀ x, (f x).segment? = x.segment?) :
    r.Rearranges { r with table := r.table.set i (f (r.table.lookup i)) } where
  rest := rfl
  backed := by
    intro hb
    refine hb.mono (Nat.le_refl _) (fun j n hn => ⟨?_, rfl⟩) (fun _ => .inl)
    by_cases hj : i = j
    · subst hj
      rw [r.table.lookup_set_self, hf] at hn
      exact hn
    · rw [r.table.lookup_set_ne _ hj] at hn
      exact hn

/-- Undoing a free keeps the segment, if there still is one. -/
theorem rearranges_relink (r : Region) (i : Nat) :
    r.Rearranges { r with table := r.table.relink i } :=
  rearranges_restate r i (f := Slot.relinked) fun x => by cases x <;> rfl

/-- A free keeps the segment. -/
theorem rearranges_mark (r : Region) (i : Nat) :
    r.Rearranges { r with table := r.table.mark i } :=
  rearranges_restate r i (f := Slot.markedFreeing) fun x => by cases x <;> rfl

/-- The segment of a slot, if there is one, goes to the collector; if the slot
    goes on holding it, then as one that is to be emptied. -/
theorem rearranges_retire (r : Region) {i : Nat} {x : Slot} {linked : Bool} {table : SlotTable}
    (hlookup : ∀ j, table.lookup j = (r.table.set i x).lookup j)
    (hx : ∀ n, x.segment? = some n → (r.table.lookup i).segment? = some n ∧ linked = true) :
    r.Rearranges (retire { r with table } i linked (r.table.lookup i).segment?) := by
  have hslots : ∀ j n, (table.lookup j).segment? = some n →
      (r.table.lookup j).segment? = some n ∧ (j = i → linked = true) := by
    intro j n hn
    rw [hlookup] at hn
    by_cases hj : i = j
    · subst hj
      rw [r.table.lookup_set_self] at hn
      exact ⟨(hx n hn).1, fun _ => (hx n hn).2⟩
    · rw [r.table.lookup_set_ne _ hj] at hn
      exact ⟨hn, fun heq => absurd heq.symm hj⟩
  cases hi : (r.table.lookup i).segment? with
  | none =>
    refine ⟨rfl, fun hb => ?_⟩
    exact hb.mono (Nat.le_refl _) (fun j n hn => ⟨(hslots j n hn).1, rfl⟩) fun _ => .inl
  | some n =>
    refine ⟨rfl, fun hb => hb.mono (Nat.le_refl _) (fun j m hm => ⟨(hslots j m hm).1, rfl⟩) ?_⟩
    intro e he
    rw [waiting_eq, entries_retire, List.map_append] at he
    rcases List.mem_append.1 he with hold | hnew
    · exact .inl hold
    · rw [List.map_singleton, List.mem_singleton] at hnew
      subst hnew
      -- The segment has one slot, so the only one that may still hold it is `i`.
      have hheld := hb.held i n hi
      refine .inr ⟨lt_size_of_slotOf? hheld, fun j hj => ?_⟩
      obtain ⟨hold, hlinked⟩ := hslots j n hj
      have hji : j = i := Option.some.inj ((hb.held j n hold).symm.trans hheld)
      exact ⟨hlinked hji, hji⟩

theorem rearranges_retireFreed (r : Region) (i : Nat) : r.Rearranges (r.retireFreed i) := by
  refine rearranges_retire r (x := (r.table.lookup i).markedRetired) (fun _ => rfl) fun n hn => ?_
  cases hi : r.table.lookup i <;> rw [hi] at hn <;> exact ⟨hn, rfl⟩

theorem rearranges_retireAllocation (r : Region) (i : Nat) :
    r.Rearranges (r.retireAllocation i) :=
  rearranges_retire r (x := .vacant) (fun _ => rfl) nofun

end TransactionalMemory.Region
