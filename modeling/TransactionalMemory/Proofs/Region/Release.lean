import TransactionalMemory.Proofs.Reclaim.Participants
import TransactionalMemory.Proofs.Region.Backing

/-! # What a collection releases

    A collection takes the retirements whose wait is over out of the collector
    and goes through them. Those of the first kind leave their slot and are
    retired again, those of the second kind are released.

    Whoever pins epoch `e` keeps the epoch of the collector at `e + 1` or below,
    and what is taken was retired two epochs before. So nothing that was
    retired in epoch `e` or later is taken, and what leaves its slot during the
    collection is retired again in epoch `e` or later. -/

namespace TransactionalMemory.Region

variable {r r' r'' : Region} {count : Nat → Nat}

/-! ## Whatever has been done -/

/-- A collection changes slots, and releases segments. -/
structure Drops (r r' : Region) : Prop where
  settings_eq : r'.settings = r.settings
  ids_eq : r'.ids = r.ids
  size : r'.segments.size = r.segments.size
  segments : ∀ n, r'.segment? n = r.segment? n ∨ r'.segment? n = none

namespace Drops

theorem refl (r : Region) : r.Drops r := ⟨rfl, rfl, rfl, fun _ => .inl rfl⟩

theorem trans (h : r.Drops r') (h' : r'.Drops r'') : r.Drops r'' where
  settings_eq := h'.settings_eq.trans h.settings_eq
  ids_eq := h'.ids_eq.trans h.ids_eq
  size := h'.size.trans h.size
  segments := by
    intro n
    rcases h'.segments n with heq | hnone
    · rw [heq]; exact h.segments n
    · exact .inr hnone

theorem wordSize_eq (h : r.Drops r') : r'.wordSize = r.wordSize :=
  wordSize_congr h.settings_eq

/-- The words that are left are as they were. -/
theorem cell?_of_some (h : r.Drops r') {ref : WordRef} {c : Cell}
    (hc : r'.cell? ref = some c) : r.cell? ref = some c := by
  obtain ⟨seg, hseg, hw, rfl⟩ := cell?_eq_some_iff.1 hc
  rcases h.segments ref.segment with heq | hnone
  · exact cell?_eq_some_iff.2 ⟨seg, heq ▸ hseg, hw, rfl⟩
  · rw [hnone] at hseg; cases hseg

/-- The words of a segment that is left are all left. -/
theorem cell?_of_isSome (h : r.Drops r') {ref : WordRef}
    (hsome : (r'.segment? ref.segment).isSome) : r'.cell? ref = r.cell? ref := by
  unfold cell?
  rcases h.segments ref.segment with heq | hnone
  · rw [heq]
  · rw [hnone] at hsome; cases hsome

theorem shaped (h : r.Drops r') (hr : r.Shaped) : r'.Shaped := by
  intro n seg hn
  rw [h.wordSize_eq]
  rcases h.segments n with heq | hnone
  · exact hr n seg (heq ▸ hn)
  · rw [hnone] at hn; cases hn

end Drops

theorem drops_afterWait (r : Region) (e : Retirement) : r.Drops (r.afterWait e) := by
  unfold afterWait
  split
  · exact ⟨rfl, rfl, rfl, fun _ => .inl rfl⟩
  · refine ⟨rfl, rfl, by simp [release], fun n => ?_⟩
    by_cases hn : n = e.segment
    · subst hn
      refine .inr ?_
      simp only [segment?, release, Array.getElem?_setIfInBounds_self]
      split <;> rfl
    · exact .inl (by simp [segment?, release, Array.getElem?_setIfInBounds_ne (Ne.symm hn)])

theorem drops_foldl (r : Region) (batch : List Retirement) :
    r.Drops (batch.foldl afterWait r) := by
  induction batch generalizing r with
  | nil => exact .refl r
  | cons e rest ih => exact (drops_afterWait r e).trans (ih _)

theorem drops_collect (r : Region) : r.Drops r.collect.2 := by
  have h := drops_foldl { r with collector := r.collector.takeExpired.2 } r.collector.takeExpired.1
  exact ⟨h.settings_eq, h.ids_eq, h.size, h.segments⟩

/-- Going through retirements empties slots, and does nothing else to them. -/
theorem lookup_foldl (r : Region) (batch : List Retirement) (i : Nat) :
    (batch.foldl afterWait r).table.lookup i = r.table.lookup i ∨
      (batch.foldl afterWait r).table.lookup i = .vacant := by
  induction batch generalizing r with
  | nil => exact .inl rfl
  | cons e rest ih =>
    have hstep : (r.afterWait e).table.lookup i = r.table.lookup i ∨
        (r.afterWait e).table.lookup i = .vacant := by
      unfold afterWait
      split
      · show (r.table.set e.slot .vacant).lookup i = _ ∨ (r.table.set e.slot .vacant).lookup i = _
        by_cases hi : e.slot = i
        · exact .inr (hi ▸ r.table.lookup_set_self _ _)
        · exact .inl (r.table.lookup_set_ne _ hi)
      · exact .inl rfl
    rcases ih (r.afterWait e) with heq | hvacant
    · rwa [List.foldl_cons, heq]
    · exact .inr hvacant

/-- A collection empties slots, and does nothing else to them. -/
theorem lookup_collect (r : Region) (i : Nat) :
    r.collect.2.table.lookup i = r.table.lookup i ∨ r.collect.2.table.lookup i = .vacant :=
  lookup_foldl { r with collector := r.collector.takeExpired.2 } r.collector.takeExpired.1 i

/-- Whoever has left its slot can be released. -/
theorem Backed.afterWait (h : r.Backed) {e : Retirement} (he : r.Leaving e) :
    (r.afterWait e).Backed ∧ ∀ x, r.Leaving x → (r.afterWait e).Leaving x := by
  unfold Region.afterWait
  split
  · -- The first wait is over: the slot is emptied and the second wait begins.
    have hslots : ∀ i n, ((r.unlinkRetired e).table.lookup i).segment? = some n →
        (r.table.lookup i).segment? = some n ∧ i ≠ e.slot := by
      intro i n hn
      change ((r.table.set e.slot .vacant).lookup i).segment? = some n at hn
      by_cases hi : e.slot = i
      · rw [hi, r.table.lookup_set_self] at hn
        cases hn
      · rw [r.table.lookup_set_ne _ hi] at hn
        exact ⟨hn, Ne.symm hi⟩
    refine ⟨h.mono (Nat.le_refl _) (fun i n hn => ⟨(hslots i n hn).1, rfl⟩) fun x hx => ?_,
      fun x hx => hx.mono (Nat.le_refl _) fun i n hn => (hslots i n hn).1⟩
    have hentries : (r.unlinkRetired e).collector.entries = r.collector.entries ++
        [.inEpoch (r.collector.pin.unpin r.collector.epoch).epoch { e with linked := false }] :=
      Collector.entries_retire ..
    rw [waiting_eq, hentries, List.map_append] at hx
    rcases List.mem_append.1 hx with hold | hnew
    · exact .inl hold
    · rw [List.map_singleton, List.mem_singleton] at hnew
      subst hnew
      refine .inr ⟨he.1, fun i hi => ?_⟩
      obtain ⟨hold, hne⟩ := hslots i _ hi
      exact absurd (he.2 i hold).2 hne
  next hlinked =>
    -- No slot holds the segment that is released.
    have hgone : ∀ i n, (r.table.lookup i).segment? = some n → n ≠ e.segment := by
      rintro i n hn rfl
      exact hlinked (he.2 i hn).1
    have hsize : r.segments.size ≤ (r.release e).segments.size :=
      Nat.le_of_eq (by simp [release])
    refine ⟨h.mono hsize (fun i n hn => ⟨hn, ?_⟩) (fun _ => .inl),
      fun x hx => hx.mono hsize fun i n hn => hn⟩
    simp [slotOf?, segment?, release, Array.getElem?_setIfInBounds_ne (Ne.symm (hgone i n hn))]

theorem Backed.foldl {batch : List Retirement} (h : r.Backed) (hbatch : ∀ e ∈ batch, r.Leaving e) :
    (batch.foldl Region.afterWait r).Backed := by
  induction batch generalizing r with
  | nil => exact h
  | cons e rest ih =>
    obtain ⟨hbacked, hleaving⟩ := h.afterWait (hbatch e List.mem_cons_self)
    exact ih hbacked fun x hx => hleaving x (hbatch x (List.mem_cons_of_mem _ hx))

theorem Backed.collect (h : r.Backed) : r.collect.2.Backed := by
  have hwaiting := r.collector.waiting_takeExpired
  have htaken : Backed { r with collector := r.collector.takeExpired.2 } :=
    h.mono (Nat.le_refl _) (fun _ _ hn => ⟨hn, rfl⟩) fun x hx => .inl (by
      rw [hwaiting]; exact List.mem_append_right _ hx)
  have hbatch : ∀ e ∈ r.collector.takeExpired.1, r.Leaving e := fun e he => h.waiting e (by
    rw [hwaiting]; exact List.mem_append_left _ he)
  have hfold := htaken.foldl hbatch
  exact hfold.congr rfl rfl rfl rfl

/-! ## While the slots agree -/

/-- The region in the middle of a collection, with the retirements that it has
    taken out of the collector and not yet dealt with. -/
structure Collecting (batch : List Retirement) (r : Region) (count : Nat → Nat) : Prop where
  agrees : r.table.Agrees r.slotOf? (batch ++ r.collector.waiting)
  inOrder : r.collector.InOrder
  tallies : r.collector.clock.Tallies count

/-- What dealing with some retirements does: it concerns only the slots that
    they name, and takes nothing away that a pinned epoch keeps. -/
structure DealsWith (batch : List Retirement) (r r' : Region) (count : Nat → Nat) : Prop where
  lookup : ∀ i, i ∉ batch.map Retirement.slot → r'.table.lookup i = r.table.lookup i
  entries : ∀ i, i ∉ batch.map Retirement.slot →
    ∀ x ∈ r'.collector.entries, x.value.slot = i → x ∈ r.collector.entries
  keeps : ∀ e i n, count e ≠ 0 → r.Keeps e i n → r'.Keeps e i n

theorem DealsWith.nil (r : Region) : DealsWith [] r r count :=
  ⟨fun _ _ => rfl, fun _ _ _ hx _ => hx, fun _ _ _ _ hk => hk⟩

theorem DealsWith.cons {e : Retirement} {batch : List Retirement}
    (h : DealsWith [e] r r' count) (h' : DealsWith batch r' r'' count) :
    DealsWith (e :: batch) r r'' count where
  lookup := by
    intro i hi
    rw [List.map_cons, List.mem_cons, not_or] at hi
    rw [h'.lookup i hi.2, h.lookup i (by simpa using hi.1)]
  entries := by
    intro i hi x hx hslot
    rw [List.map_cons, List.mem_cons, not_or] at hi
    exact h.entries i (by simpa using hi.1) x (h'.entries i hi.2 x hx hslot) hslot
  keeps := fun e i n he hk => h'.keeps e i n he (h.keeps e i n he hk)

/-! ## One retirement -/

/-- The pin and unpin in the middle of a collection leave the participants as they were. -/
theorem tallies_pin_unpin {c : Collector Retirement} (h : c.clock.Tallies count) :
    (c.pin.unpin c.epoch).clock.Tallies count := h.enter.leave.tryAdvance

theorem unlinkRetired_spec {e : Retirement} {batch : List Retirement}
    (h : Collecting (e :: batch) r count) (hlinked : e.linked = true) :
    DealsWith [e] r (r.unlinkRetired e) count ∧ Collecting batch (r.unlinkRetired e) count := by
  have hlookup : ∀ i, (r.unlinkRetired e).table.lookup i = (r.table.set e.slot .vacant).lookup i :=
    fun _ => rfl
  have hentries : (r.unlinkRetired e).collector.entries = r.collector.entries ++
      [.inEpoch (r.collector.pin.unpin r.collector.epoch).epoch { e with linked := false }] :=
    Collector.entries_retire ..
  have hepoch : r.collector.epoch ≤ (r.collector.pin.unpin r.collector.epoch).epoch :=
    r.collector.pin.epoch_le_unpin _
  have hretired : r.table.lookup e.slot = .retired e.segment := by
    rw [h.agrees.waitingSlot e List.mem_cons_self, Slot.afterRetire, hlinked]; rfl
  constructor
  · constructor
    · intro i hi
      rw [hlookup, r.table.lookup_set_ne _ fun heq => hi (by simp [heq])]
    · -- What is new in the queue names the slot of `e`.
      intro i hi x hx hslot
      rw [hentries] at hx
      rcases List.mem_append.1 hx with hold | hnew
      · exact hold
      · rw [List.mem_singleton.1 hnew] at hslot
        exact absurd hslot fun heq => hi (by rw [← heq]; exact List.mem_singleton.2 rfl)
    · intro p i n hp hk
      by_cases hi : i = e.slot
      · -- The segment leaves its slot now, in an epoch that is at least `p`.
        subst hi
        have hn : n = e.segment := by
          rcases hk with hn | ⟨hvacant, _⟩
          · rw [hretired] at hn; exact (Option.some.inj hn).symm
          · rw [hretired] at hvacant; cases hvacant
        refine .inr ⟨by rw [hlookup, r.table.lookup_set_self], ?_⟩
        rw [hentries, hn]
        exact ⟨_, List.mem_append_right _ (List.mem_singleton.2 rfl), rfl, rfl,
          Nat.le_trans (h.tallies.epoch_le_of_ne_zero hp).1 hepoch⟩
      · have hother : (r.unlinkRetired e).table.lookup i = r.table.lookup i := by
          rw [hlookup, r.table.lookup_set_ne _ (Ne.symm hi)]
        rcases hk with hn | ⟨hvacant, x, hx, hrest⟩
        · exact .inl (by rw [hother]; exact hn)
        · refine .inr ⟨by rw [hother]; exact hvacant, x, ?_, hrest⟩
          rw [hentries]
          exact List.mem_append_left _ hx
  · constructor
    · rw [waiting_eq, hentries, List.map_append, ← List.append_assoc]
      exact h.agrees.unlink.congr hlookup rfl rfl
    · exact (h.inOrder.later (d := r.collector.pin.unpin r.collector.epoch) rfl rfl hepoch).retire _
    · exact tallies_pin_unpin h.tallies

theorem release_spec {e : Retirement} {batch : List Retirement}
    (h : Collecting (e :: batch) r count) (hlinked : e.linked = false) :
    DealsWith [e] r (r.release e) count ∧ Collecting batch (r.release e) count := by
  have hsegments : ∀ n, n ≠ e.segment → (r.release e).segment? n = r.segment? n := by
    intro n hn
    simp [segment?, release, Array.getElem?_setIfInBounds_ne (Ne.symm hn)]
  constructor
  · exact ⟨fun _ _ => rfl, fun _ _ _ hx _ => hx, fun _ _ _ _ hk => hk⟩
  · constructor
    · exact h.agrees.release hlinked fun n hn => congrArg (Option.map Segment.slot) (hsegments n hn)
    · exact h.inOrder
    · exact h.tallies

/-! ## All of them -/

theorem foldl_afterWait_spec {batch : List Retirement} (h : Collecting batch r count) :
    DealsWith batch r (batch.foldl afterWait r) count ∧
      Collecting [] (batch.foldl afterWait r) count := by
  induction batch generalizing r with
  | nil => exact ⟨.nil r, h⟩
  | cons e rest ih =>
    have hstep : DealsWith [e] r (r.afterWait e) count ∧ Collecting rest (r.afterWait e) count := by
      unfold afterWait
      split
      next hlinked => exact unlinkRetired_spec h hlinked
      next hlinked => exact release_spec h (Bool.eq_false_iff.2 hlinked)
    obtain ⟨hrest, hend⟩ := ih hstep.2
    exact ⟨hstep.1.cons hrest, hend⟩

/-- What a collection leaves as it was: everything that a pinned epoch relies on. -/
structure Sheds (r r' : Region) (count : Nat → Nat) : Prop extends r.Drops r' where
  slotted : r'.Slotted
  inOrder : r'.collector.InOrder
  tallies : r'.collector.clock.Tallies count
  used : ∀ i, (r.table.lookup i).isOccupied → r'.table.lookup i = r.table.lookup i
  keeps : ∀ e i n, count e ≠ 0 → r.Keeps e i n → r'.Keeps e i n
  holds : ∀ e i n, count e ≠ 0 → r.Holds e i n → r'.Holds e i n

theorem tallies_takeExpired {α : Type} {c : Collector α} (h : c.clock.Tallies count) :
    c.takeExpired.2.clock.Tallies count := by
  unfold Collector.takeExpired
  split
  · exact h
  · exact h.tryAdvance

/-- What the collector hands over was retired before every epoch in which
    somebody is pinned: their two epochs are not over, because the pin holds the
    epoch back. -/
theorem exists_taken {α : Type} {c : Collector α} (ho : c.InOrder) (ht : c.clock.Tallies count) :
    ∃ taken : List (Retired α), c.takeExpired.1 = taken.map (·.value) ∧
      c.entries = taken ++ c.takeExpired.2.entries ∧
      ∀ x ∈ taken, ∀ e, count e ≠ 0 → x.epoch < e := by
  obtain ⟨taken, htaken, hsplit, hstamps, -⟩ := ho.takeExpired
  refine ⟨taken, htaken, hsplit, fun x hx e he => ?_⟩
  have hwait : x.epoch + 2 ≤ c.takeExpired.2.epoch := hstamps x hx
  have hpinned : c.takeExpired.2.epoch ≤ e + 1 :=
    ((tallies_takeExpired ht).epoch_le_of_ne_zero he).2
  omega

/-- A collection begins with what the collector hands over. -/
theorem collecting_takeExpired (hs : r.Slotted) (ho : r.collector.InOrder)
    (ht : r.collector.clock.Tallies count) :
    Collecting r.collector.takeExpired.1 { r with collector := r.collector.takeExpired.2 }
      count where
  agrees := by
    have hagrees := hs
    unfold Slotted at hagrees
    rwa [r.collector.waiting_takeExpired] at hagrees
  inOrder := by
    obtain ⟨-, -, -, -, ho'⟩ := ho.takeExpired
    exact ho'
  tallies := tallies_takeExpired ht

theorem collect_spec (hs : r.Slotted) (ho : r.collector.InOrder)
    (ht : r.collector.clock.Tallies count) : r.Sheds r.collect.2 count := by
  have hstart := collecting_takeExpired hs ho ht
  obtain ⟨taken, htaken, hsplit, hold⟩ := exists_taken ho ht
  obtain ⟨hdeals, hend⟩ := foldl_afterWait_spec hstart
  have huntaken : ∀ i, (∀ x ∈ taken, x.value.slot ≠ i) →
      i ∉ r.collector.takeExpired.1.map Retirement.slot := by
    intro i hi hmem
    rw [htaken, List.map_map] at hmem
    obtain ⟨x, hx, heq⟩ := List.mem_map.1 hmem
    exact hi x hx heq
  have hsub : ∀ {x}, x ∈ taken → x ∈ r.collector.entries := fun hx => by
    rw [hsplit]; exact List.mem_append_left _ hx
  constructor
  · exact drops_collect r
  · exact hend.agrees
  · exact hend.inOrder
  · exact hend.tallies
  · -- Only retired slots are named by what waits.
    intro i hi
    refine hdeals.lookup i (huntaken i fun x hx heq => ?_)
    exact hs.not_mem_waiting hi (heq ▸ List.mem_map_of_mem (List.mem_map_of_mem (hsub hx)))
  · intro e i n he hk
    refine hdeals.keeps e i n he ?_
    rcases hk with hn | ⟨hvacant, x, hx, hslot, hseg, hle⟩
    · exact .inl hn
    · -- The entry that counts is young, so it is left in the queue.
      rw [hsplit] at hx
      have hleft := (List.mem_append.1 hx).resolve_left fun hmem =>
        Nat.not_le_of_lt (hold x hmem e he) hle
      exact .inr ⟨hvacant, x, hleft, hslot, hseg, hle⟩
  · -- All entries of the slot are young, so nothing that is taken names it.
    intro e i n he hh
    have hi : i ∉ r.collector.takeExpired.1.map Retirement.slot :=
      huntaken i fun x hx heq => Nat.not_le_of_lt (hold x hx e he) (hh.2 x (hsub hx) heq)
    refine ⟨?_, fun x hx hslot => ?_⟩
    · have hlookup := hdeals.lookup i hi
      exact (congrArg Slot.segment? hlookup).trans hh.1
    · have hmem := hdeals.entries i hi x hx hslot
      exact hh.2 x (by rw [hsplit]; exact List.mem_append_right _ hmem) hslot

end TransactionalMemory.Region
