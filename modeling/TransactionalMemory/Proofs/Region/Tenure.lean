import TransactionalMemory.Proofs.Region.Draining
import TransactionalMemory.Proofs.Region.Housing

/-! # How long a slot holds its segment

    `Housed` is the housing of the segments of a region. A collection keeps it,
    unless it releases a segment that was released before, and `ReleasedOnce`
    says that none was: as many segments are gone as were released.

    Two statements are about a slot that somebody who pins epoch `e` relies on.
    `Retains e i n` says that slot `i` holds segment `n`, and that none of the
    retirements that will unlink the slot is older than epoch `e`. `Vacated e i`
    says that slot `i` was emptied, and that no retirement of the segment that it
    belongs to is older than epoch `e`. A collection takes what is older than
    every epoch that is pinned, so as long as epoch `e` is pinned it takes neither
    away. -/

namespace TransactionalMemory

namespace Region

variable {r r' : Region} {count : Nat → Nat}

/-- A slot number belongs to one segment at a time. -/
def Housed (r : Region) : Prop :=
  r.table.Houses r.slotOf? r.segments.size r.collector.waiting

/-- Slot `i` holds segment `n`, and nothing is going to unlink it that was retired
    before epoch `e`. -/
structure Retains (r : Region) (e i n : Nat) : Prop where
  holds : (r.table.lookup i).segment? = some n
  recent : ∀ x ∈ r.collector.entries, x.value.slot = i → x.value.linked = true → e ≤ x.epoch

/-- Slot `i` is empty, and belongs to segment `n`, which was not retired before
    epoch `e`. -/
structure Vacated (r : Region) (e i n : Nat) : Prop where
  vacant : r.table.lookup i = .vacant
  belongs : r.slotOf? n = some i
  recent : ∀ x ∈ r.collector.entries, x.value.segment = n → e ≤ x.epoch

/-! ## Segments that are gone -/

/-- The number of segments that were released. -/
def gone (r : Region) : Nat := r.segments.toList.countP Option.isNone

/-- No segment was released twice: as many are gone as were released. -/
def ReleasedOnce (r : Region) : Prop := r.gone = r.reclaimed

instance (r : Region) : Decidable r.ReleasedOnce := inferInstanceAs (Decidable (_ = _))

/-- Changes to the words let no segment go. -/
theorem gone_congr (hsize : r'.segments.size = r.segments.size)
    (hlayout : ∀ n, (r'.segment? n).map Segment.layout = (r.segment? n).map Segment.layout) :
    r'.gone = r.gone := by
  have hmap : r'.segments.toList.map Option.isNone = r.segments.toList.map Option.isNone := by
    apply List.ext_getElem (by simpa using hsize)
    intro n hn hn'
    have hsegment := congrArg Option.isNone (hlayout n)
    simp only [List.length_map, Array.length_toList] at hn hn'
    simpa [segment?, hn, hn'] using hsegment
  have hcount : ∀ l : List (Option Segment),
      l.countP Option.isNone = (l.map Option.isNone).count true := fun l => by
    simp [List.count, List.countP_map, Function.comp_def]
  rw [gone, gone, hcount, hcount, hmap]

/-- A release lets one segment go, if it was there. -/
theorem gone_release (r : Region) (e : Retirement) :
    (r.release e).gone =
      if (r.segment? e.segment).isSome then r.gone + 1 else r.gone := by
  unfold gone
  show (r.segments.setIfInBounds e.segment none).toList.countP Option.isNone = _
  rw [Array.toList_setIfInBounds]
  by_cases hlt : e.segment < r.segments.size
  · have hmem : r.segments[e.segment] ∈ r.segments.toList := by simp
    rw [List.countP_set (by simpa using hlt)]
    cases hsegment : r.segments[e.segment] with
    | none =>
      have hpos : 0 < r.segments.toList.countP Option.isNone :=
        List.countP_pos_iff.2 ⟨none, hsegment ▸ hmem, rfl⟩
      simpa [segment?, hlt, hsegment] using Nat.sub_add_cancel hpos
    | some s => simp [segment?, hlt, hsegment]
  · have hnone : r.segment? e.segment = none := by
      simp [segment?, Array.getElem?_eq_none (Nat.le_of_not_lt hlt)]
    rw [List.set_eq_of_length_le (by simpa using hlt), hnone]
    rfl

theorem gone_afterWait_le (r : Region) (e : Retirement) :
    (r.afterWait e).gone ≤ r.gone + if e.linked then 0 else 1 := by
  unfold afterWait
  split
  · exact Nat.le_refl _
  · rw [gone_release]
    split <;> omega

theorem gone_foldl_le (r : Region) (batch : List Retirement) :
    (batch.foldl afterWait r).gone ≤ r.gone + batch.countP (!·.linked) := by
  induction batch generalizing r with
  | nil => exact Nat.le_refl _
  | cons e rest ih =>
    have hstep := gone_afterWait_le r e
    have hrest := ih (r.afterWait e)
    rw [List.foldl_cons, List.countP_cons]
    cases hlinked : e.linked <;> simp [hlinked] at hstep ⊢ <;> omega

/-- A collection lets go no more segments than it releases. -/
theorem gone_collect_le (r : Region) : r.collect.2.gone ≤ r.gone + r.collect.1 :=
  gone_foldl_le { r with collector := r.collector.takeExpired.2 } r.collector.takeExpired.1

/-- As long as slots, segments and retirements agree, what is to be released is there. -/
theorem gone_foldl {batch : List Retirement} (h : Collecting batch r count) :
    (batch.foldl afterWait r).gone = r.gone + batch.countP (!·.linked) := by
  induction batch generalizing r with
  | nil => rfl
  | cons e rest ih =>
    rw [List.foldl_cons, List.countP_cons]
    cases hlinked : e.linked with
    | true =>
      have hafter : r.afterWait e = r.unlinkRetired e := if_pos hlinked
      rw [hafter, ih (unlinkRetired_spec h hlinked).2]
      rfl
    | false =>
      have hafter : r.afterWait e = r.release e := if_neg (by simp [hlinked])
      have hheld : r.slotOf? e.segment = some e.slot :=
        h.agrees.waitingHeld e (List.mem_append_left _ List.mem_cons_self)
      have hpresent : (r.segment? e.segment).isSome := by
        rw [← Option.isSome_map]
        exact Option.isSome_of_eq_some hheld
      rw [hafter, ih (release_spec h hlinked).2, gone_release, if_pos hpresent]
      simp only [Bool.not_false, if_true]
      omega

theorem gone_collect (hs : r.Slotted) (ht : r.Timed count) :
    r.collect.2.gone = r.gone + r.collect.1 :=
  gone_foldl (collecting_takeExpired hs ht.inOrder ht.tallies)

/-! ## Housing -/

/-- Before anything is allocated, no slot number belongs to a segment. -/
theorem housed_empty (settings : Settings) : Housed { settings } := by
  have hunheld : ∀ n, slotOf? { settings } n = none := fun n => by
    rw [slotOf?, segment?_empty]
    rfl
  constructor
  case single =>
    intro n m i hn
    rw [hunheld] at hn
    cases hn
  case reserved =>
    intro n i hn
    rw [hunheld] at hn
    cases hn
  case held =>
    intro i n hn
    rw [lookup_empty] at hn
    cases hn
  case recycledOnce => exact .nil
  case linkedFirst => exact .nil
  all_goals exact fun _ hmem => absurd hmem List.not_mem_nil

namespace Housed

theorem congr (h : r.Housed) (htable : r'.table = r.table) (hslots : r'.slotOf? = r.slotOf?)
    (hsize : r'.segments.size = r.segments.size)
    (hentries : r'.collector.entries = r.collector.entries) : r'.Housed := by
  unfold Housed
  rw [htable, hslots, hsize, waiting_eq, hentries]
  exact h

theorem of_sameButWords (h : r.Housed) (hsame : r.SameButWords r') : r'.Housed :=
  h.congr hsame.table_eq (funext hsame.slotOf?_eq) hsame.size
    (congrArg Collector.entries hsame.collector_eq)

/-- A slot in use is not waiting to be unlinked. -/
theorem ne_slot_of_isOccupied (h : r.Housed) {i : Nat} (hi : (r.table.lookup i).isOccupied = true)
    {x : Retired Retirement} (hx : x ∈ r.collector.entries) (hlinked : x.value.linked = true) :
    x.value.slot ≠ i := by
  rintro rfl
  rw [h.linkedUnused x.value (List.mem_map_of_mem hx) hlinked] at hi
  cases hi

/-- Whoever finds a slot in use can rely on it, whatever epoch is pinned. -/
theorem retains (h : r.Housed) {i n : Nat} (hi : (r.table.lookup i).isOccupied = true)
    (hn : (r.table.lookup i).segment? = some n) (e : Nat) : r.Retains e i n :=
  ⟨hn, fun _ hx hslot hlinked => absurd hslot (h.ne_slot_of_isOccupied hi hx hlinked)⟩

/-- An allocation gives the new segment a slot number that belongs to no other. -/
theorem allocate (h : r.Housed) {size i : Nat} (hgranted : r.allocate? size = some (i, r')) :
    r'.Housed ∧ ∀ n, r.slotOf? n ≠ some i := by
  obtain ⟨table, hreserve, rfl⟩ := allocate?_inv hgranted
  obtain ⟨hfree, hlt, hrecycled, hhouses⟩ := h.reserve hreserve
  refine ⟨?_, hfree⟩
  unfold Housed
  rw [Array.size_push]
  refine hhouses.publish hlt hrecycled hfree ?_ ?_ fun m hm => ?_
  · simp [slotOf?, segment?]
  · simp [slotOf?, segment?, Segment.zeroed]
  · simp [slotOf?, segment?, Array.getElem?_push, hm]

theorem fails (h : r.Housed) (hfails : r.Fails r') : r'.Housed := by
  cases hfails with
  | unchanged => exact h
  | givenBack reserved => exact SlotTable.Houses.giveBack h reserved

/-- The segment of a slot, if there is one, goes to the collector. -/
theorem retire {i : Nat} {x : Slot} {linked : Bool} {table : SlotTable} (h : r.Housed)
    (hlookup : ∀ j, table.lookup j = (r.table.set i x).lookup j)
    (hnext : table.next = r.table.next) (hrecycled : table.recycled = r.table.recycled)
    (hvacant : r.table.lookup i = .vacant → x = .vacant)
    (hx : ∀ n, (r.table.lookup i).segment? = some n → x = .afterRetire n linked ∧
      (linked = true → (r.table.lookup i).isOccupied = true)) :
    (Region.retire { r with table } i linked (r.table.lookup i).segment?).Housed := by
  -- What holds of the table with the slot set holds of the one that is put in.
  have hput : ∀ {waiting : List Retirement},
      (r.table.set i x).Houses r.slotOf? r.segments.size waiting →
        table.Houses r.slotOf? r.segments.size waiting := fun hset =>
    hset.mono (hnext.trans (r.table.next_set ..).symm)
      (hrecycled.trans (r.table.recycled_set ..).symm) (fun j _ hm => hlookup j ▸ hm)
      fun j hj => hlookup j ▸ hj
  cases hn : (r.table.lookup i).segment? with
  | none =>
    have hempty : x = .vacant := hvacant (by
      cases hi : r.table.lookup i with
      | vacant => rfl
      | live n | freeing n | retired n => rw [hi] at hn; cases hn)
    subst hempty
    exact hput (SlotTable.Houses.set h i (fun _ hm => nomatch hm) fun _ => rfl)
  | some n =>
    obtain ⟨rfl, hused⟩ := hx n hn
    unfold Housed
    rw [waiting_eq, entries_retire, List.map_append]
    exact hput (SlotTable.Houses.retire h hn (lt_size_of_slotOf? (h.held i n hn)) hused _)

/-- The slot of a free that is committed is retired, unless it was emptied. -/
theorem retireFreed (h : r.Housed) {i : Nat} (hi : (r.table.lookup i).isRetired = false) :
    (r.retireFreed i).Housed := by
  refine h.retire (x := (r.table.lookup i).markedRetired) (fun _ => rfl)
    (r.table.next_set ..) (r.table.recycled_set ..) (fun hvacant => by rw [hvacant]; rfl)
    fun n hn => ?_
  cases hx : r.table.lookup i with
  | vacant => rw [hx] at hn; cases hn
  | live m | freeing m =>
    rw [hx] at hn
    cases hn
    exact ⟨rfl, fun _ => rfl⟩
  | retired m => rw [hx] at hi; cases hi

/-- The slot of an allocation that is undone is emptied. -/
theorem retireAllocation (h : r.Housed) (i : Nat) : (r.retireAllocation i).Housed :=
  h.retire (x := .vacant) (fun _ => rfl) (r.table.next_set ..) (r.table.recycled_set ..)
    (fun _ => rfl) fun _ _ => ⟨rfl, nofun⟩

/-- The slot of a free that is undone is live again, unless it was emptied. -/
theorem relink (h : r.Housed) {i : Nat} (hi : (r.table.lookup i).isRetired = false) :
    Housed { r with table := r.table.relink i } := by
  refine SlotTable.Houses.set h i (fun n hn => ?_) fun hunused => ?_
  · rwa [Slot.segment?_relinked] at hn
  · cases hx : r.table.lookup i with
    | vacant => rfl
    | live n | freeing n => rw [hx] at hunused; cases hunused
    | retired n => rw [hx] at hi; cases hi

/-- A free marks its slot. -/
theorem mark (h : r.Housed) {i n : Nat} (hi : r.table.lookup i = .live n) :
    Housed { r with table := r.table.mark i } := by
  refine SlotTable.Houses.set h i (fun m hm => ?_) fun hunused => ?_
  · rwa [Slot.segment?_markedFreeing] at hm
  · rw [hi] at hunused
    cases hunused

/-- Going through retirements, each of which is released at most once. -/
theorem foldl {batch : List Retirement}
    (h : r.table.Houses r.slotOf? r.segments.size (batch ++ r.collector.waiting))
    (hgone : r.gone + batch.countP (!·.linked) ≤ (batch.foldl afterWait r).gone) :
    (batch.foldl afterWait r).Housed := by
  induction batch generalizing r with
  | nil => exact h
  | cons e rest ih =>
    have hrest := gone_foldl_le (r.afterWait e) rest
    rw [List.foldl_cons] at hgone ⊢
    cases hlinked : e.linked with
    | true =>
      rw [List.countP_cons_of_neg (by simp [hlinked])] at hgone
      have hafter : r.afterWait e = r.unlinkRetired e := if_pos hlinked
      rw [hafter] at hgone ⊢
      refine ih ?_ hgone
      rw [waiting_eq, entries_unlinkRetired, List.map_append, ← List.append_assoc]
      exact (SlotTable.Houses.unlink h hlinked).mono rfl rfl (fun _ _ hm => hm) fun _ hj => hj
    | false =>
      rw [List.countP_cons_of_pos (by simp [hlinked])] at hgone
      have hafter : r.afterWait e = r.release e := if_neg (by simp [hlinked])
      rw [hafter] at hgone hrest ⊢
      -- The counts only come out if the segment is there.
      have hpresent : (r.segment? e.segment).isSome := by
        rw [gone_release] at hrest
        split at hrest
        · assumption
        · omega
      refine ih ?_ ?_
      · have hheld : ∀ n, n ≠ e.segment → (r.release e).slotOf? n = r.slotOf? n := fun n hn => by
          simp [slotOf?, segment?, release, Array.getElem?_setIfInBounds_ne (Ne.symm hn)]
        have hgone' : (r.release e).slotOf? e.segment = none := by
          simp only [slotOf?, segment?, release, Array.getElem?_setIfInBounds_self]
          split <;> rfl
        have hsize : (r.release e).segments.size = r.segments.size := by simp [release]
        rw [hsize]
        refine SlotTable.Houses.release h hlinked ?_ hgone' hheld
        rw [slotOf?, ne_eq, Option.map_eq_none_iff]
        exact Option.isSome_iff_ne_none.1 hpresent
      · rw [gone_release, if_pos hpresent]
        omega

/-- A collection keeps the housing, unless a segment was released twice. -/
theorem collect (h : r.Housed) (honce : r.ReleasedOnce) (honce' : r.collect.2.ReleasedOnce) :
    r.collect.2.Housed := by
  have htaken : r.table.Houses r.slotOf? r.segments.size
      (r.collector.takeExpired.1 ++ r.collector.takeExpired.2.waiting) := by
    rw [← r.collector.waiting_takeExpired]
    exact h
  refine congr (foldl (r := { r with collector := r.collector.takeExpired.2 }) htaken ?_)
    rfl rfl rfl rfl
  have hreclaimed := r.reclaimed_collect
  unfold ReleasedOnce at honce honce'
  show r.gone + r.collect.1 ≤ r.collect.2.gone
  omega

end Housed

/-- Going through slots one after the other, each of them at most once: what each
    step keeps of a slot that is as it was at the beginning, all steps keep. -/
theorem foldr_keeps {op : Nat → Region → Region} {f : Slot → Slot}
    (hop : ∀ (r : Region) i j,
      (op i r).table.lookup j = if j = i then f (r.table.lookup j) else r.table.lookup j)
    (hf : ∀ x, f (f x) = f x) {P : Slot → Prop} {Q : Region → Prop}
    (hstep : ∀ (r : Region) i, P (r.table.lookup i) → Q r → Q (op i r)) {slots : List Nat}
    (honce : slots.Nodup) (hslots : ∀ i ∈ slots, P (r.table.lookup i)) (start : Q r) :
    Q (slots.foldr op r) := by
  induction slots with
  | nil => exact start
  | cons i rest ih =>
    obtain ⟨hi, honce⟩ := List.nodup_cons.1 honce
    refine hstep _ i ?_ (ih honce fun j hj => hslots j (List.mem_cons_of_mem _ hj))
    rw [lookup_foldr hop hf, if_neg hi]
    exact hslots i List.mem_cons_self

end Region

/-! ## The end of a transaction -/

namespace Transaction

variable {t : Transaction} {r : Region}

theorem mem_emptied_iff {committed : Bool} {i : Nat} :
    i ∈ t.emptied committed ↔ committed = false ∧ i ∈ t.allocated := by
  cases committed <;> simp [emptied]

/-- The end of a transaction empties the slots that it gives up, and no others. -/
theorem segment?_conclusion (t : Transaction) (r : Region) (committed : Bool) (i : Nat) :
    ((t.conclusion r committed).table.lookup i).segment? =
      if i ∈ t.emptied committed then none else (r.table.lookup i).segment? := by
  rw [t.lookup_conclusion]
  split
  · rfl
  · cases committed <;> split <;> simp

theorem slotOf?_conclusion (t : Transaction) (r : Region) (committed : Bool) :
    (t.conclusion r committed).slotOf? = r.slotOf? := by
  funext n
  have hlayout := congrArg (Option.map Prod.fst) ((t.settles_conclusion r committed).layout n)
  simpa only [Region.slotOf?, Option.map_map, Function.comp_def, Segment.layout] using hlayout

/-- What the end of a transaction retires, it retires in the current epoch. -/
theorem entries_conclusion (t : Transaction) (r : Region) (committed : Bool)
    {x : Retired Retirement} (hx : x ∈ (t.conclusion r committed).collector.entries) :
    x ∈ r.collector.entries ∨ x.epoch = r.collector.epoch := by
  obtain ⟨new, hnew, hstamps⟩ := (t.enqueues_rearranged r committed).added
  rw [collector_conclusion] at hx
  change x ∈ (t.rearranged r committed).collector.entries at hx
  rw [hnew] at hx
  exact (List.mem_append.1 hx).imp_right (hstamps x)

/-- The slots that are freed are those that hold their segment, or nothing. -/
theorem housed_conclusion (h : r.Housed) (honce : t.freed.Nodup)
    (hfreed : ∀ i ∈ t.freed, (r.table.lookup i).isRetired = false) (committed : Bool) :
    (t.conclusion r committed).Housed := by
  obtain ⟨hwords, -⟩ := r.settleWords_spec t.id committed t.touched
  have hsettled := h.of_sameButWords hwords
  rw [← hwords.table_eq] at hfreed
  have hrearranged : (t.rearranged r committed).Housed := by
    cases committed with
    | true =>
      exact Region.foldr_keeps Region.lookup_retireFreed (fun x => by cases x <;> rfl)
        (P := fun x => x.isRetired = false) (Q := Region.Housed)
        (fun _ _ hi hr => hr.retireFreed hi) honce hfreed hsettled
    | false =>
      have hundone : (t.freesUndone r).Housed :=
        Region.foldr_keeps Region.lookup_relink (fun x => by cases x <;> rfl)
          (P := fun x => x.isRetired = false) (Q := Region.Housed)
          (fun _ _ hi hr => hr.relink hi) honce hfreed hsettled
      exact List.foldrRecOn t.allocated _ hundone fun _ hr i _ => hr.retireAllocation i
  obtain ⟨gate, commits, aborts, heq⟩ := t.conclusion_eq r committed
  rw [heq]
  exact hrearranged.congr rfl rfl rfl rfl

theorem gone_conclusion (t : Transaction) (r : Region) (committed : Bool) :
    (t.conclusion r committed).gone = r.gone :=
  Region.gone_congr (t.settles_conclusion r committed).size
    (t.settles_conclusion r committed).layout

end Transaction

namespace Region

variable {r r' : Region} {count : Nat → Nat} {e i n : Nat}

/-! ## Slots that somebody relies on -/

/-- As long as nothing older is retired, a slot that still has its segment retains it. -/
theorem Retains.mono (h : r.Retains e i n) (hn : (r'.table.lookup i).segment? = some n)
    (hentries : ∀ x ∈ r'.collector.entries,
      x ∈ r.collector.entries ∨ (x.value.linked = true → e ≤ x.epoch)) : r'.Retains e i n := by
  refine ⟨hn, fun x hx hslot hlinked => ?_⟩
  rcases hentries x hx with hold | hnew
  · exact h.recent x hold hslot hlinked
  · exact hnew hlinked

/-- As long as nothing older is retired, a slot that still belongs to its segment
    stays vacated. -/
theorem Vacated.mono (h : r.Vacated e i n) (hvacant : r'.table.lookup i = .vacant)
    (hslot : r'.slotOf? n = r.slotOf? n)
    (hentries : ∀ x ∈ r'.collector.entries,
      x ∈ r.collector.entries ∨ (x.value.segment = n → e ≤ x.epoch)) : r'.Vacated e i n := by
  refine ⟨hvacant, hslot.trans h.belongs, fun x hx hsegment => ?_⟩
  rcases hentries x hx with hold | hnew
  · exact h.recent x hold hsegment
  · exact hnew hsegment

theorem Retains.congr (h : r.Retains e i n) (htable : r'.table = r.table)
    (hentries : r'.collector.entries = r.collector.entries) : r'.Retains e i n :=
  h.mono (by rw [htable]; exact h.holds) fun x hx => .inl (hentries ▸ hx)

theorem Vacated.congr (h : r.Vacated e i n) (htable : r'.table = r.table)
    (hslots : r'.slotOf? = r.slotOf?) (hentries : r'.collector.entries = r.collector.entries) :
    r'.Vacated e i n :=
  h.mono (by rw [htable]; exact h.vacant) (congrFun hslots n) fun x hx => .inl (hentries ▸ hx)

/-- A slot that belongs to a segment is not the one that an allocation is granted. -/
theorem Retains.allocate (h : r.Retains e i n) (hr : r.Housed) {size j : Nat}
    (hgranted : r.allocate? size = some (j, r')) : r'.Retains e i n := by
  have hgrows := grows_of_allocate? hgranted
  have hij : i ≠ j := by
    rintro rfl
    exact (hr.allocate hgranted).2 n (hr.held i n h.holds)
  refine h.mono ?_ fun x hx => .inl (hgrows.collector_eq ▸ hx)
  rw [hgrows.others i hij]
  exact h.holds

theorem Vacated.allocate (h : r.Vacated e i n) (hr : r.Housed) {size j : Nat}
    (hgranted : r.allocate? size = some (j, r')) : r'.Vacated e i n := by
  have hgrows := grows_of_allocate? hgranted
  have hij : i ≠ j := by
    rintro rfl
    exact (hr.allocate hgranted).2 n h.belongs
  refine h.mono ((hgrows.others i hij).trans h.vacant) ?_
    fun x hx => .inl (hgrows.collector_eq ▸ hx)
  rw [slotOf?, hgrows.segment?_eq, if_neg (Nat.ne_of_lt (lt_size_of_slotOf? h.belongs))]
  rfl

/-- What is in the slot that an allocation is granted was not there before. -/
theorem retains_allocate (hr : r.Housed) {size j : Nat} (hgranted : r.allocate? size = some (j, r'))
    (e : Nat) : r'.Retains e j r.segments.size := by
  have hgrows := grows_of_allocate? hgranted
  refine ⟨by rw [hgrows.self]; rfl, fun x hx hslot hlinked => ?_⟩
  rw [hgrows.collector_eq] at hx
  have hheld := hr.linkedHeld x.value (List.mem_map_of_mem hx) hlinked
  rw [hslot] at hheld
  exact absurd hheld ((hr.allocate hgranted).2 _)

/-- An attempt to allocate that fails leaves the slots as they are. -/
theorem Retains.fails (h : r.Retains e i n) (hfails : r.Fails r') : r'.Retains e i n := by
  obtain ⟨table, hlookup, rfl⟩ := hfails.inv
  exact h.mono (hlookup i ▸ h.holds) fun _ => .inl

theorem Vacated.fails (h : r.Vacated e i n) (hfails : r.Fails r') : r'.Vacated e i n := by
  obtain ⟨table, hlookup, rfl⟩ := hfails.inv
  exact h.mono ((hlookup i).trans h.vacant) rfl fun _ => .inl

/-- A free takes no segment out of its slot, and empties none. -/
theorem Retains.mark (h : r.Retains e i n) (j : Nat) :
    Retains { r with table := r.table.mark j } e i n := by
  refine h.mono ?_ fun _ => .inl
  rw [r.table.segment?_mark]
  exact h.holds

theorem Vacated.mark (h : r.Vacated e i n) (j : Nat) :
    Vacated { r with table := r.table.mark j } e i n := by
  refine h.mono ?_ rfl fun _ => .inl
  show (r.table.set j (r.table.lookup j).markedFreeing).lookup i = .vacant
  by_cases hij : j = i
  · rw [hij, r.table.lookup_set_self, h.vacant]
    rfl
  · rw [r.table.lookup_set_ne _ hij]
    exact h.vacant

section

variable {t : Transaction} {committed : Bool}

/-- The end of a transaction empties only the slots that it allocated. -/
theorem Retains.conclusion (h : r.Retains e i n) (he : e ≤ r.collector.epoch)
    (hi : i ∉ t.emptied committed) : (t.conclusion r committed).Retains e i n := by
  refine h.mono ?_ fun x hx => (t.entries_conclusion r committed hx).imp_right fun hnew _ => ?_
  · rw [t.segment?_conclusion, if_neg hi]
    exact h.holds
  · rw [hnew]; exact he

theorem Vacated.conclusion (h : r.Vacated e i n) (he : e ≤ r.collector.epoch) :
    (t.conclusion r committed).Vacated e i n := by
  refine h.mono ?_ (congrFun (t.slotOf?_conclusion r committed) n)
    fun x hx => (t.entries_conclusion r committed hx).imp_right fun hnew _ => ?_
  · rw [t.lookup_conclusion, h.vacant]
    cases committed <;> simp [Slot.markedRetired, Slot.relinked]
  · rw [hnew]; exact he

/-- A slot in use that is emptied by the end of a transaction is vacated, for
    whoever has pinned an epoch until then. -/
theorem vacated_conclusion (h : r.Housed) (hused : (r.table.lookup i).isOccupied = true)
    (hn : (r.table.lookup i).segment? = some n) (he : e ≤ r.collector.epoch)
    (hi : i ∈ t.emptied committed) : (t.conclusion r committed).Vacated e i n := by
  refine ⟨by rw [t.lookup_conclusion, if_pos hi], ?_, fun x hx hsegment => ?_⟩
  · rw [t.slotOf?_conclusion]
    exact h.held i n hn
  · rcases t.entries_conclusion r committed hx with hold | hnew
    · -- Nothing that was retired before is about a segment in use.
      subst hsegment
      have hwaiting : x.value ∈ r.collector.waiting := List.mem_map_of_mem hold
      exact absurd (h.waitingSlot _ hwaiting i (h.held i _ hn)).symm
        (h.ne_slot_of_isOccupied hused hold (h.leaving _ hwaiting i hn))
    · rw [hnew]; exact he

end

/-! ## Collection -/

/-- Of the retirements that wait, a collection takes none of those that concern
    somebody who is pinned. -/
theorem Timed.not_taken (ht : r.Timed count) (he : count e ≠ 0) {P : Retirement → Prop}
    (hrecent : ∀ x ∈ r.collector.entries, P x.value → e ≤ x.epoch) :
    (∀ y ∈ r.collector.takeExpired.1, ¬ P y) ∧
      ∀ x ∈ r.collector.takeExpired.2.entries, x ∈ r.collector.entries := by
  obtain ⟨taken, htaken, hsplit, hold⟩ := exists_taken ht.inOrder ht.tallies
  rw [htaken, hsplit]
  refine ⟨fun y hy hP => ?_, fun x hx => List.mem_append_right _ hx⟩
  obtain ⟨x, hx, rfl⟩ := List.mem_map.1 hy
  have hmem : x ∈ r.collector.entries := by rw [hsplit]; exact List.mem_append_left _ hx
  exact Nat.not_le_of_lt (hold x hx e he) (hrecent x hmem hP)

/-- What going through retirements leaves as it was, whatever else is so: the
    slots that are not to be unlinked, and the segments that are not named. What
    is added to the queue is to be released. -/
structure Clears (batch : List Retirement) (r r' : Region) : Prop where
  lookup : ∀ i, (∀ y ∈ batch, ¬ (y.slot = i ∧ y.linked = true)) →
    r'.table.lookup i = r.table.lookup i
  segments : ∀ n, (∀ y ∈ batch, y.segment ≠ n) → r'.segment? n = r.segment? n
  entries : ∀ x ∈ r'.collector.entries, x ∈ r.collector.entries ∨
    x.value.linked = false ∧ ∃ y ∈ batch, y.segment = x.value.segment

theorem clears_afterWait (r : Region) (y : Retirement) : Clears [y] r (r.afterWait y) := by
  unfold afterWait
  split
  next hlinked =>
    refine ⟨fun i hi => ?_, fun _ _ => rfl, fun x hx => ?_⟩
    · exact r.table.lookup_set_ne _ fun heq => hi y (List.mem_singleton.2 rfl) ⟨heq, hlinked⟩
    · rw [entries_unlinkRetired] at hx
      refine (List.mem_append.1 hx).imp_right fun hnew => ?_
      rw [List.mem_singleton.1 hnew]
      exact ⟨rfl, y, List.mem_singleton.2 rfl, rfl⟩
  next =>
    refine ⟨fun _ _ => rfl, fun n hn => ?_, fun _ => .inl⟩
    have hne := hn y (List.mem_singleton.2 rfl)
    simp [segment?, release, Array.getElem?_setIfInBounds_ne hne]

theorem clears_foldl (r : Region) (batch : List Retirement) :
    Clears batch r (batch.foldl afterWait r) := by
  induction batch generalizing r with
  | nil => exact ⟨fun _ _ => rfl, fun _ _ => rfl, fun _ => .inl⟩
  | cons y rest ih =>
    have hfirst := clears_afterWait r y
    have hrest := ih (r.afterWait y)
    refine ⟨fun i hi => ?_, fun n hn => ?_, fun x hx => ?_⟩
    · rw [List.forall_mem_cons] at hi
      exact (hrest.lookup i hi.2).trans (hfirst.lookup i (by simpa using hi.1))
    · rw [List.forall_mem_cons] at hn
      exact (hrest.segments n hn.2).trans (hfirst.segments n (by simpa using hn.1))
    · rcases hrest.entries x hx with hold | ⟨hlinked, z, hz, hsegment⟩
      · refine (hfirst.entries x hold).imp_right fun ⟨hlinked, z, hz, hsegment⟩ => ?_
        exact ⟨hlinked, z, List.mem_cons.2 (.inl (List.mem_singleton.1 hz)), hsegment⟩
      · exact .inr ⟨hlinked, z, List.mem_cons_of_mem _ hz, hsegment⟩

theorem clears_collect (r : Region) : Clears r.collector.takeExpired.1
    { r with collector := r.collector.takeExpired.2 } r.collect.2 := by
  have h := clears_foldl { r with collector := r.collector.takeExpired.2 } r.collector.takeExpired.1
  exact ⟨h.lookup, h.segments, h.entries⟩

/-- A slot keeps its segment as long as an epoch is pinned since which it was not retired. -/
theorem Retains.collect (h : r.Retains e i n) (ht : r.Timed count) (he : count e ≠ 0) :
    r.collect.2.Retains e i n := by
  have hclears := r.clears_collect
  obtain ⟨huntaken, hleft⟩ := ht.not_taken (P := fun y => y.slot = i ∧ y.linked = true) he
    fun x hx hP => h.recent x hx hP.1 hP.2
  refine h.mono ?_ fun x hx => ?_
  · rw [hclears.lookup i huntaken]
    exact h.holds
  · rcases hclears.entries x hx with hold | ⟨hunlinked, -⟩
    · exact .inl (hleft x hold)
    · refine .inr fun hlinked => ?_
      rw [hunlinked] at hlinked
      cases hlinked

/-- And a slot that was emptied stays with its segment. -/
theorem Vacated.collect (h : r.Vacated e i n) (ht : r.Timed count) (he : count e ≠ 0) :
    r.collect.2.Vacated e i n := by
  have hclears := r.clears_collect
  obtain ⟨huntaken, hleft⟩ := ht.not_taken (P := fun y => y.segment = n) he h.recent
  refine h.mono ?_ ?_ fun x hx => ?_
  · exact (r.lookup_collect i).elim (fun heq => heq.trans h.vacant) id
  · rw [slotOf?, hclears.segments n huntaken]
    rfl
  · rcases hclears.entries x hx with hold | ⟨-, y, hy, hsegment⟩
    · exact .inl (hleft x hold)
    · exact .inr fun heq => absurd (hsegment.trans heq) (huntaken y hy)

end Region

end TransactionalMemory
