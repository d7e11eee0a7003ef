import TransactionalMemory.Proofs.Region.Slots

/-! # What a pinned epoch keeps

    `Keeps e i n` says that segment `n` is in slot `i`, or has left it in epoch
    `e` or later and waits to be released. A transaction that pins epoch `e` and
    once found segment `n` in slot `i` relies on nothing else: as long as this
    holds, the segment is not released and the slot is not handed out again.

    `Holds e i n` is the stronger statement about a slot that came into use in
    epoch `e` or later: the segment can only have been retired since then, so
    it does not even leave its slot.

    The end of a transaction goes through the slots that it freed or allocated.
    `Moves` states what that does to a region, for one slot and for many. -/

namespace TransactionalMemory.Region

variable {r r' r'' : Region}

def slotOf? (r : Region) (n : Nat) : Option Nat := (r.segment? n).map Segment.slot

/-- The slots, the segments and the waiting retirements agree. -/
def Slotted (r : Region) : Prop := r.table.Agrees r.slotOf? r.collector.waiting

/-- Segment `n` is in slot `i`, or left it in epoch `e` or later and is waiting. -/
def Keeps (r : Region) (e i n : Nat) : Prop :=
  (r.table.lookup i).segment? = some n ∨
    (r.table.lookup i = .vacant ∧
      ∃ x ∈ r.collector.entries, x.value.slot = i ∧ x.value.segment = n ∧ e ≤ x.epoch)

/-- Segment `n` is in slot `i`, and was not retired before epoch `e`. -/
def Holds (r : Region) (e i n : Nat) : Prop :=
  (r.table.lookup i).segment? = some n ∧
    ∀ x ∈ r.collector.entries, x.value.slot = i → e ≤ x.epoch

theorem waiting_eq (c : Collector Retirement) : c.waiting = c.entries.map Retired.value := rfl

/-- A segment that is kept is not released, and its slot is not handed out again. -/
theorem Keeps.unreleased {e i n : Nat} (h : r.Keeps e i n) (hs : r.Slotted) :
    (∃ s, r.segment? n = some s ∧ s.slot = i) ∧ i ∉ r.table.recycled ∧ i < r.table.next := by
  have hheld : r.slotOf? n = some i → ∃ s, r.segment? n = some s ∧ s.slot = i :=
    Option.map_eq_some_iff.1
  rcases h with hn | ⟨_, x, hx, rfl, rfl, _⟩
  · have hvacant : r.table.lookup i ≠ .vacant := fun heq => by rw [heq] at hn; cases hn
    exact ⟨hheld (hs.held i n hn), hs.not_mem_recycled hvacant, hs.lt_next hvacant⟩
  · have hmem : x.value ∈ r.collector.waiting := List.mem_map_of_mem hx
    exact ⟨hheld (hs.waitingHeld _ hmem), hs.waitingUnrecycled _ hmem, hs.waitingOld _ hmem⟩

/-! ## Going through slots -/

/-- From `r` to `r'` some slots change by `f`, and the segments that thereby
    leave use go to the collector. -/
structure Moves (r r' : Region) (slots : List Nat) (f : Slot → Slot) : Prop where
  rest : r' = { r with table := r'.table, collector := r'.collector }
  clock : r'.collector.clock = r.collector.clock
  lookup : ∀ i, r'.table.lookup i = if i ∈ slots then f (r.table.lookup i) else r.table.lookup i
  slotted : r'.Slotted
  inOrder : r.collector.InOrder → r'.collector.InOrder
  entries : ∀ x ∈ r'.collector.entries, x ∈ r.collector.entries ∨ r.collector.epoch ≤ x.epoch
  keeps : ∀ e i n, e ≤ r.collector.epoch → r.Keeps e i n → r'.Keeps e i n

namespace Moves

variable {slots : List Nat} {f : Slot → Slot}

theorem epoch_eq (h : r.Moves r' slots f) : r'.collector.epoch = r.collector.epoch :=
  congrArg EpochClock.epoch h.clock

theorem lookup_of_not_mem (h : r.Moves r' slots f) {i : Nat} (hi : i ∉ slots) :
    r'.table.lookup i = r.table.lookup i := by rw [h.lookup, if_neg hi]

theorem lookup_of_mem (h : r.Moves r' slots f) {i : Nat} (hi : i ∈ slots) :
    r'.table.lookup i = f (r.table.lookup i) := by rw [h.lookup, if_pos hi]

/-- A slot that still has its segment holds it since the same epoch. -/
theorem holds (h : r.Moves r' slots f) {e i n : Nat} (he : e ≤ r.collector.epoch)
    (hh : r.Holds e i n) (hn : (r'.table.lookup i).segment? = some n) : r'.Holds e i n := by
  refine ⟨hn, fun x hx hi => ?_⟩
  rcases h.entries x hx with hold | hnew
  · exact hh.2 x hold hi
  · exact Nat.le_trans he hnew

theorem nil (hs : r.Slotted) : r.Moves r [] f :=
  ⟨rfl, rfl, fun _ => rfl, hs, id, fun _ => .inl, fun _ _ _ _ => id⟩

theorem cons {i : Nat} (h : r.Moves r' slots f) (h' : r'.Moves r'' [i] f) (hi : i ∉ slots) :
    r.Moves r'' (i :: slots) f where
  rest := by rw [h'.rest, h.rest]
  clock := h'.clock.trans h.clock
  lookup := by
    intro j
    rw [h'.lookup, h.lookup]
    by_cases hj : j = i
    · subst hj; simp [hi]
    · simp [hj]
  slotted := h'.slotted
  inOrder := h'.inOrder ∘ h.inOrder
  entries := by
    intro x hx
    rcases h'.entries x hx with hold | hnew
    · exact h.entries x hold
    · exact .inr (h.epoch_eq ▸ hnew)
  keeps := fun e i n he hk => h'.keeps e i n (h.epoch_eq ▸ he) (h.keeps e i n he hk)

/-- Going through different slots one after the other, the last of the list first. -/
theorem foldr (op : Nat → Region → Region) {P : Slot → Prop}
    (hop : ∀ (r : Region) i, r.Slotted → P (r.table.lookup i) → r.Moves (op i r) [i] f)
    (hs : r.Slotted) (honce : slots.Nodup) (hslots : ∀ i ∈ slots, P (r.table.lookup i)) :
    r.Moves (slots.foldr op r) slots f := by
  induction slots with
  | nil => exact nil hs
  | cons i rest ih =>
    -- The slots are different, so the first is still as it was at the beginning.
    obtain ⟨hi, honce⟩ := List.nodup_cons.1 honce
    have hrest := ih honce fun j hj => hslots j (List.mem_cons_of_mem _ hj)
    have hstep := hop (rest.foldr op r) i hrest.slotted (by
      rw [hrest.lookup_of_not_mem hi]
      exact hslots i List.mem_cons_self)
    exact hrest.cons hstep hi

/-- What each of these steps keeps, going through all the slots keeps; `Q` may
    depend on the slots that have been done. -/
theorem foldr_induct (op : Nat → Region → Region) {P : Slot → Prop}
    {Q : List Nat → Region → Prop}
    (hop : ∀ (r : Region) i, r.Slotted → P (r.table.lookup i) → r.Moves (op i r) [i] f)
    (hs : r.Slotted) (honce : slots.Nodup) (hslots : ∀ i ∈ slots, P (r.table.lookup i))
    (start : Q [] r)
    (step : ∀ (done : List Nat) (r : Region) i, r.Slotted → P (r.table.lookup i) → Q done r →
      Q (i :: done) (op i r)) : Q slots (slots.foldr op r) := by
  induction slots with
  | nil => exact start
  | cons i rest ih =>
    obtain ⟨hi, honce⟩ := List.nodup_cons.1 honce
    have hrest : ∀ j ∈ rest, P (r.table.lookup j) := fun j hj =>
      hslots j (List.mem_cons_of_mem _ hj)
    have hmoves := foldr op hop hs honce hrest
    refine step rest _ i hmoves.slotted ?_ (ih honce hrest)
    rw [hmoves.lookup_of_not_mem hi]
    exact hslots i List.mem_cons_self

end Moves

/-! ## One slot -/

/-- A slot in use is given another state of use. -/
theorem moves_restate (hs : r.Slotted) {i n : Nat} {f : Slot → Slot}
    (hi : (r.table.lookup i).isOccupied) (hn : (r.table.lookup i).segment? = some n)
    (hf : (f (r.table.lookup i)).isOccupied) (hfn : (f (r.table.lookup i)).segment? = some n) :
    r.Moves { r with table := r.table.set i (f (r.table.lookup i)) } [i] f where
  rest := rfl
  clock := rfl
  lookup := by
    intro j
    by_cases hj : j = i
    · subst hj
      simpa using r.table.lookup_set_self j _
    · simpa [hj] using r.table.lookup_set_ne _ (Ne.symm hj)
  slotted := hs.restate hi hn hf hfn
  inOrder := id
  entries := fun _ => .inl
  keeps := by
    intro e j m _ hk
    by_cases hj : j = i
    · subst hj
      refine .inl ?_
      rw [r.table.lookup_set_self, hfn]
      rcases hk with hm | ⟨hvacant, _⟩
      · rw [← hm, hn]
      · rw [hvacant] at hi; cases hi
    · unfold Keeps
      rwa [r.table.lookup_set_ne _ (Ne.symm hj)]

/-- A free marks its slot. -/
theorem moves_mark (hs : r.Slotted) {i n : Nat} (hi : r.table.lookup i = .live n) :
    r.Moves { r with table := r.table.mark i } [i] Slot.markedFreeing :=
  moves_restate hs (by rw [hi]; rfl) (n := n) (by rw [hi]; rfl) (by rw [hi]; rfl) (by rw [hi]; rfl)

/-- Undoing a free puts its slot back into use. -/
theorem moves_relink (hs : r.Slotted) {i n : Nat} (hi : r.table.lookup i = .freeing n) :
    r.Moves { r with table := r.table.relink i } [i] Slot.relinked :=
  moves_restate hs (by rw [hi]; rfl) (n := n) (by rw [hi]; rfl) (by rw [hi]; rfl) (by rw [hi]; rfl)

/-- A retired segment waits behind all others, from the current epoch on. -/
theorem entries_retire (r : Region) (i n : Nat) (linked : Bool) :
    (retire r i linked (some n)).collector.entries = r.collector.entries ++
      [.inEpoch r.collector.epoch
        ⟨i, n, footprint ((r.segment? n).elim 0 Segment.size) r.wordSize, linked⟩] :=
  Collector.entries_retire ..

/-- A slot in use is retired or emptied, and its segment goes to the collector. -/
theorem moves_retire (hs : r.Slotted) {i n : Nat} {f : Slot → Slot} {linked : Bool}
    {table : SlotTable} (hi : (r.table.lookup i).isOccupied)
    (hn : (r.table.lookup i).segment? = some n)
    (hf : f (r.table.lookup i) = .afterRetire n linked)
    (hlookup : ∀ j, table.lookup j = (r.table.set i (.afterRetire n linked)).lookup j)
    (hnext : table.next = r.table.next) (hrecycled : table.recycled = r.table.recycled) :
    r.Moves (retire { r with table } i linked (some n)) [i] f where
  rest := rfl
  clock := rfl
  lookup := by
    intro j
    refine (hlookup j).trans ?_
    by_cases hj : j = i
    · subst hj
      rw [r.table.lookup_set_self, ← hf]
      simp
    · simpa [hj] using r.table.lookup_set_ne _ (Ne.symm hj)
  slotted := by
    unfold Slotted
    rw [waiting_eq, entries_retire, List.map_append]
    refine SlotTable.Agrees.congr (t := r.table.set i (.afterRetire n linked)) ?_ hlookup
      (by rw [SlotTable.next_set]; exact hnext) (by rw [SlotTable.recycled_set]; exact hrecycled)
    exact hs.retire hi hn _ linked
  inOrder := fun h => h.retire _
  entries := by
    intro x hx
    rw [entries_retire] at hx
    rcases List.mem_append.1 hx with hold | hnew
    · exact .inl hold
    · rw [List.mem_singleton.1 hnew]; exact .inr (Nat.le_refl _)
  keeps := by
    intro e j m he hk
    by_cases hj : j = i
    · -- The segment of this slot goes to the queue, unless it stays linked.
      subst hj
      have hm : m = n := by
        rcases hk with hm | ⟨hvacant, _⟩
        · rw [hn] at hm; exact (Option.some.inj hm).symm
        · rw [hvacant] at hi; cases hi
      subst hm
      have hself : table.lookup j = .afterRetire m linked :=
        (hlookup j).trans (r.table.lookup_set_self j _)
      cases linked with
      | true =>
        refine .inl ?_
        show (table.lookup j).segment? = some m
        rw [hself]; rfl
      | false =>
        refine .inr ⟨hself, ?_⟩
        rw [entries_retire]
        exact ⟨_, List.mem_append_right _ (List.mem_singleton.2 rfl), rfl, rfl, he⟩
    · have hother : table.lookup j = r.table.lookup j :=
        (hlookup j).trans (r.table.lookup_set_ne _ (Ne.symm hj))
      rcases hk with hm | ⟨hvacant, x, hx, hslot, hseg, hstamp⟩
      · exact .inl (hother ▸ hm)
      · -- Whatever waits goes on waiting.
        refine .inr ⟨hother.trans hvacant, x, ?_, hslot, hseg, hstamp⟩
        rw [entries_retire]
        exact List.mem_append_left _ hx

/-- Committing a free retires its slot. -/
theorem moves_retireFreed (hs : r.Slotted) {i n : Nat} (hi : r.table.lookup i = .freeing n) :
    r.Moves (r.retireFreed i) [i] Slot.markedRetired := by
  have heq : r.retireFreed i
      = retire { r with table := (r.table.markRetired i).2 } i true (some n) := by
    simp [retireFreed, SlotTable.markRetired, hi, Slot.segment?]
  rw [heq]
  refine moves_retire hs (by rw [hi]; rfl) (by rw [hi]; rfl) (by rw [hi]; rfl) (fun j => ?_)
    (SlotTable.next_set ..) (SlotTable.recycled_set ..)
  show (r.table.set i (r.table.lookup i).markedRetired).lookup j = _
  rw [hi]; rfl

/-- Undoing an allocation empties its slot. -/
theorem moves_retireAllocation (hs : r.Slotted) {i n : Nat} (hi : r.table.lookup i = .live n) :
    r.Moves (r.retireAllocation i) [i] fun _ => .vacant := by
  have heq : r.retireAllocation i
      = retire { r with table := (r.table.unlink i).2 } i false (some n) := by
    simp [retireAllocation, SlotTable.unlink, hi, Slot.segment?]
  rw [heq]
  exact moves_retire hs (by rw [hi]; rfl) (by rw [hi]; rfl) rfl (fun _ => rfl)
    (SlotTable.next_set ..) (SlotTable.recycled_set ..)

end TransactionalMemory.Region
