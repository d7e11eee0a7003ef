import Mathlib.Algebra.BigOperators.Group.Finset.Basic
import Mathlib.Algebra.GroupWithZero.Nat
import TransactionalMemory.Proofs.Region.Allocation
import TransactionalMemory.Proofs.Region.Release

/-! # The account of slots and bytes

    Slots move between four places: in use, retired and still linked, emptied
    and waiting, and waiting to be handed out again. Four counters follow them:
    the occupied slots, the entries in the collector, the segments released so
    far, and the bytes in use. `Accounted` states that no slot number is lost on
    the way and that every counter is what it counts.

    A sum over the slots in use, whatever each of them counts for, changes by
    the one slot that changes. So one lemma about such sums, `weight_set`, serves
    the number of slots and the bytes alike.

    The account is kept by every change that the region makes to its slots. In
    the middle of a collection the retirements taken out of the collector count
    as waiting, and those already released count as released. -/

namespace TransactionalMemory

namespace Slot

/-- What the slot counts for: the weight of its segment, if that is in use. -/
def weigh (w : Nat → Nat) : Slot → Nat
  | live n | freeing n => w n
  | vacant | retired _ => 0

theorem weigh_of_isOccupied {w : Nat → Nat} {x : Slot} {n : Nat} (hx : x.isOccupied = true)
    (hn : x.segment? = some n) : x.weigh w = w n := by
  cases x <;> cases hx <;> cases hn <;> rfl

theorem weigh_of_unoccupied {w : Nat → Nat} {x : Slot} (hx : x.isOccupied = false) :
    x.weigh w = 0 := by
  cases x <;> cases hx <;> rfl

theorem weigh_congr {w w' : Nat → Nat} {x : Slot} (h : ∀ n, x.segment? = some n → w' n = w n) :
    x.weigh w' = x.weigh w := by
  cases x with
  | vacant => rfl
  | retired n => rfl
  | live n => exact h n rfl
  | freeing n => exact h n rfl

end Slot

namespace SlotTable

variable {t t' : SlotTable} {w w' : Nat → Nat} {i : Nat}

/-- What all slots in use count for together. -/
def weight (t : SlotTable) (w : Nat → Nat) : Nat :=
  ∑ i ∈ Finset.range t.next, (t.lookup i).weigh w

theorem weight_congr (hnext : t'.next = t.next)
    (h : ∀ i, (t'.lookup i).weigh w' = (t.lookup i).weigh w) : t'.weight w' = t.weight w := by
  unfold weight
  rw [hnext]
  exact Finset.sum_congr rfl fun i _ => h i

/-- When one slot changes, its old weight is replaced by its new one. -/
theorem weight_set (hi : i < t.next) (hnext : t'.next = t.next)
    (hothers : ∀ j, j ≠ i → t'.lookup j = t.lookup j) :
    t'.weight w + (t.lookup i).weigh w = t.weight w + (t'.lookup i).weigh w := by
  have hmem : i ∈ Finset.range t.next := Finset.mem_range.2 hi
  have hrest : ∑ j ∈ (Finset.range t.next).erase i, (t'.lookup j).weigh w
      = ∑ j ∈ (Finset.range t.next).erase i, (t.lookup j).weigh w :=
    Finset.sum_congr rfl fun j hj => by rw [hothers j (Finset.ne_of_mem_erase hj)]
  unfold weight
  rw [hnext, ← Finset.add_sum_erase _ (fun j => (t'.lookup j).weigh w) hmem,
    ← Finset.add_sum_erase _ (fun j => (t.lookup j).weigh w) hmem, hrest]
  omega

/-- A vacant slot that is filled adds the weight of its segment. -/
theorem weight_publish (hi : i < t.next) (hvacant : t.lookup i = .vacant) (n : Nat) :
    (t.publish i n).weight w = t.weight w + w n := by
  have hself : (t.publish i n).lookup i = .live n := t.lookup_set_self i _
  have hset : (t.publish i n).weight w + (t.lookup i).weigh w
      = t.weight w + ((t.publish i n).lookup i).weigh w :=
    weight_set hi (t.next_set ..) fun j hj => t.lookup_set_ne _ (Ne.symm hj)
  rwa [hvacant, hself] at hset

/-- A slot number that was never handed out adds nothing. -/
theorem weight_next (hnext : t'.next = t.next + 1) (hlookup : ∀ j, t'.lookup j = t.lookup j)
    (hvacant : t.lookup t.next = .vacant) : t'.weight w = t.weight w := by
  unfold weight
  rw [hnext, Finset.sum_range_succ, hlookup, hvacant, Slot.weigh, Nat.add_zero]
  exact Finset.sum_congr rfl fun j _ => by rw [hlookup]

/-- The numbers of the slots in use. -/
def inUse (t : SlotTable) : Finset Nat :=
  (Finset.range t.next).filter fun i => (t.lookup i).isOccupied = true

/-- If every slot in use counts one, they are counted. -/
theorem weight_one (t : SlotTable) : t.weight (fun _ => 1) = t.inUse.card := by
  rw [inUse, Finset.card_eq_sum_ones, Finset.sum_filter]
  refine Finset.sum_congr rfl fun i _ => ?_
  cases t.lookup i <;> rfl

theorem weight_one_le (t : SlotTable) : t.weight (fun _ => 1) ≤ t.next := by
  have hle := Finset.card_filter_le (Finset.range t.next) fun i => (t.lookup i).isOccupied = true
  rw [Finset.card_range] at hle
  rwa [weight_one]

end SlotTable

namespace Region

variable {r r' : Region} {waiting batch : List Retirement} {released : Nat} {count : Nat → Nat}

def bytesOf (r : Region) (n : Nat) : Nat :=
  footprint ((r.segment? n).elim 0 Segment.size) r.wordSize

/-- Every slot number and every byte is accounted for. The parameters are the
    retirements that wait and the number of segments released so far. -/
structure Accounted (r : Region) (waiting : List Retirement) (released : Nat) : Prop where
  /-- A vacant slot is to be handed out again, or is waited for. -/
  covered : ∀ i, i < r.table.next → r.table.lookup i = .vacant →
    i ∈ r.table.recycled ∨ i ∈ waiting.map Retirement.slot
  counted : r.table.occupied.toNat = r.table.weight fun _ => 1
  /-- Every segment ever published is in use, waiting, or released. -/
  published : r.segments.size = r.table.weight (fun _ => 1) + waiting.length + released
  charged : r.bytesInUse = r.table.weight r.bytesOf + (waiting.map Retirement.bytes).sum
  priced : ∀ e ∈ waiting, e.bytes = r.bytesOf e.segment
  limited : r.bytesInUse ≤ r.settings.byteLimit

/-- The size of a segment is part of its layout. -/
theorem SameButWords.bytesOf_eq (h : r.SameButWords r') : r'.bytesOf = r.bytesOf := by
  funext n
  have hsize := congrArg (Option.elim · 0 fun l => l.2.1) (h.layout n)
  rw [Option.elim_map, Option.elim_map] at hsize
  change (r'.segment? n).elim 0 Segment.size = (r.segment? n).elim 0 Segment.size at hsize
  rw [bytesOf, bytesOf, hsize, h.wordSize_eq]

/-- A new segment holds its footprint, and the others hold what they held. -/
theorem Grows.bytesOf_eq {size i : Nat} (h : r.Grows r' size i) (n : Nat) :
    r'.bytesOf n = if n = r.segments.size then footprint size r.wordSize else r.bytesOf n := by
  unfold bytesOf
  rw [h.segment?_eq, h.wordSize_eq]
  split <;> rfl

namespace Accounted

/-- Slots may change as long as each of them counts for what it did. -/
theorem congr (h : r.Accounted waiting released)
    (hweigh : ∀ i w, (r'.table.lookup i).weigh w = (r.table.lookup i).weigh w)
    (hvacant : ∀ i, r'.table.lookup i = .vacant → r.table.lookup i = .vacant)
    (hnext : r'.table.next = r.table.next) (hrecycled : r'.table.recycled = r.table.recycled)
    (hoccupied : r'.table.occupied = r.table.occupied)
    (hsize : r'.segments.size = r.segments.size) (hbytesOf : r'.bytesOf = r.bytesOf)
    (hbytes : r'.bytesInUse = r.bytesInUse) (hsettings : r'.settings = r.settings) :
    r'.Accounted waiting released := by
  have hweight : ∀ w, r'.table.weight w = r.table.weight w := fun w =>
    SlotTable.weight_congr hnext fun i => hweigh i w
  constructor
  case covered =>
    intro i hi hi'
    rw [hrecycled]
    exact h.covered i (hnext ▸ hi) (hvacant i hi')
  case counted => rw [hoccupied, hweight]; exact h.counted
  case published => rw [hsize, hweight]; exact h.published
  case charged => rw [hbytes, hbytesOf, hweight]; exact h.charged
  case priced => rw [hbytesOf]; exact h.priced
  case limited => rw [hbytes, hsettings]; exact h.limited

/-- Accesses to words change no account. -/
theorem of_sameButWords (h : r.Accounted waiting released) (hsame : r.SameButWords r') :
    r'.Accounted waiting released := by
  have htable := hsame.table_eq
  refine h.congr (fun i w => by rw [htable]) (fun i hi => htable ▸ hi) (by rw [htable])
    (by rw [htable]) (by rw [htable]) hsame.size hsame.bytesOf_eq ?_ hsame.settings_eq
  rw [hsame.rest]

/-- A slot in use is given another state of use. -/
theorem restate (h : r.Accounted waiting released) {i n : Nat} {x : Slot}
    (hi : (r.table.lookup i).isOccupied = true) (hn : (r.table.lookup i).segment? = some n)
    (hx : x.isOccupied = true) (hxn : x.segment? = some n) :
    Accounted { r with table := r.table.set i x } waiting released := by
  have hlookup : ∀ j, j ≠ i → (r.table.set i x).lookup j = r.table.lookup j := fun j hj =>
    r.table.lookup_set_ne x (Ne.symm hj)
  refine h.congr (fun j w => ?_) (fun j hj => ?_) (SlotTable.next_set ..)
    (SlotTable.recycled_set ..) (SlotTable.occupied_set ..) rfl rfl rfl rfl
  · show ((r.table.set i x).lookup j).weigh w = _
    by_cases hji : j = i
    · subst hji
      rw [SlotTable.lookup_set_self, Slot.weigh_of_isOccupied hx hxn,
        Slot.weigh_of_isOccupied hi hn]
    · rw [hlookup j hji]
  · change (r.table.set i x).lookup j = .vacant at hj
    by_cases hji : j = i
    · subst hji
      rw [SlotTable.lookup_set_self] at hj
      rw [hj] at hx
      cases hx
    · rwa [hlookup j hji] at hj

/-- A slot in use is retired or emptied, and its segment goes to the collector. -/
theorem retire (h : r.Accounted waiting released) {i n : Nat} {linked : Bool}
    {table : SlotTable} (hlt : i < r.table.next) (hi : (r.table.lookup i).isOccupied = true)
    (hn : (r.table.lookup i).segment? = some n)
    (hlookup : ∀ j, table.lookup j = (r.table.set i (.afterRetire n linked)).lookup j)
    (hnext : table.next = r.table.next) (hrecycled : table.recycled = r.table.recycled)
    (hoccupied : table.occupied = r.table.occupied - 1) :
    Accounted (Region.retire { r with table } i linked (some n))
      (waiting ++ [⟨i, n, r.bytesOf n, linked⟩]) released := by
  have hself : table.lookup i = .afterRetire n linked :=
    (hlookup i).trans (r.table.lookup_set_self i _)
  have hothers : ∀ j, j ≠ i → table.lookup j = r.table.lookup j := fun j hj =>
    (hlookup j).trans (r.table.lookup_set_ne _ (Ne.symm hj))
  -- The slot counted for its segment, and does not count any more.
  have hweight : ∀ w, table.weight w + w n = r.table.weight w := by
    intro w
    have hset := SlotTable.weight_set (w := w) hlt hnext hothers
    have hunoccupied : (table.lookup i).isOccupied = false := by
      rw [hself]
      cases linked <;> rfl
    rwa [Slot.weigh_of_isOccupied hi hn, Slot.weigh_of_unoccupied hunoccupied,
      Nat.add_zero] at hset
  have hone := hweight fun _ => 1
  have hbytes := hweight r.bytesOf
  constructor
  case covered =>
    intro j hj hvacant
    change j < table.next at hj
    change table.lookup j = .vacant at hvacant
    show j ∈ table.recycled ∨ _
    rw [List.map_append, List.mem_append, hrecycled]
    by_cases hji : j = i
    · exact .inr (.inr (List.mem_singleton.2 hji))
    · exact (h.covered j (hnext ▸ hj) (hothers j hji ▸ hvacant)).imp_right .inl
  case counted =>
    show table.occupied.toNat = table.weight _
    have hcounted := h.counted
    have hle : (1 : UInt64) ≤ r.table.occupied := by
      rw [UInt64.le_iff_toNat_le]
      show 1 ≤ r.table.occupied.toNat
      omega
    rw [hoccupied, UInt64.toNat_sub_of_le _ _ hle]
    show r.table.occupied.toNat - 1 = _
    omega
  case published =>
    show r.segments.size = table.weight _ + _ + _
    have hpublished := h.published
    rw [List.length_append, List.length_singleton]
    omega
  case charged =>
    show r.bytesInUse = table.weight r.bytesOf + _
    have hcharged := h.charged
    rw [List.map_append, List.sum_append, List.map_singleton, List.sum_singleton]
    show r.bytesInUse = table.weight r.bytesOf + (_ + r.bytesOf n)
    omega
  case priced =>
    intro e he
    rcases List.mem_append.1 he with hold | hnew
    · exact h.priced e hold
    · rw [List.mem_singleton.1 hnew]; rfl
  case limited => exact h.limited

/-- Committing a free moves its slot to those that are retired. -/
theorem retireFreed (hs : r.Slotted) {i n : Nat} (hi : r.table.lookup i = .freeing n)
    (h : r.Accounted r.collector.waiting released) :
    (r.retireFreed i).Accounted (r.retireFreed i).collector.waiting released := by
  have hsegment : (r.table.lookup i).segment? = some n := by rw [hi]; rfl
  have heq : r.retireFreed i
      = Region.retire { r with table := (r.table.markRetired i).2 } i true (some n) :=
    congrArg (Region.retire _ i true) hsegment
  have hwaiting := entries_retire { r with table := (r.table.markRetired i).2 } i n true
  rw [heq, waiting_eq, hwaiting, List.map_append]
  refine h.retire (hs.lt_next (by rw [hi]; nofun)) (by rw [hi]; rfl) hsegment
    (fun j => ?_) (SlotTable.next_set ..) (SlotTable.recycled_set ..) ?_
  · show (r.table.set i (r.table.lookup i).markedRetired).lookup j = _
    rw [hi]
    rfl
  · show (r.table.set i _).occupied - 1 = _
    rw [SlotTable.occupied_set]

/-- Undoing an allocation moves its slot to those that are emptied. -/
theorem retireAllocation (hs : r.Slotted) {i n : Nat} (hi : r.table.lookup i = .live n)
    (h : r.Accounted r.collector.waiting released) :
    (r.retireAllocation i).Accounted (r.retireAllocation i).collector.waiting released := by
  have hsegment : (r.table.lookup i).segment? = some n := by rw [hi]; rfl
  have heq : r.retireAllocation i
      = Region.retire { r with table := (r.table.unlink i).2 } i false (some n) :=
    congrArg (Region.retire _ i false) hsegment
  have hwaiting := entries_retire { r with table := (r.table.unlink i).2 } i n false
  rw [heq, waiting_eq, hwaiting, List.map_append]
  refine h.retire (hs.lt_next (by rw [hi]; nofun)) (by rw [hi]; rfl) hsegment
    (fun _ => rfl) (SlotTable.next_set ..) (SlotTable.recycled_set ..) ?_
  show (if (r.table.lookup i).isOccupied then (r.table.set i .vacant).occupied - 1
    else (r.table.set i .vacant).occupied) = _
  rw [hi, SlotTable.occupied_set]
  rfl

/-! ## Allocation -/

/-- A slot number that is handed out is new, or was to be handed out again. -/
theorem reserve (hs : r.Slotted) {table : SlotTable} {i : Nat}
    (hreserve : r.table.reserve? = some (i, table)) :
    (∀ w, table.weight w = r.table.weight w) ∧ table.occupied = r.table.occupied ∧
      ∀ j, j < table.next → j ≠ i →
        j < r.table.next ∧ (j ∈ r.table.recycled → j ∈ table.recycled) := by
  have hlookup := SlotTable.lookup_of_reserve? hreserve
  unfold SlotTable.reserve? at hreserve
  split at hreserve
  next first rest hrecycled =>
    simp only [Option.some.injEq, Prod.mk.injEq] at hreserve
    obtain ⟨rfl, rfl⟩ := hreserve
    refine ⟨fun w => SlotTable.weight_congr rfl fun _ => rfl, rfl,
      fun j hj hne => ⟨hj, fun hmem => ?_⟩⟩
    rw [hrecycled] at hmem
    exact (List.mem_cons.1 hmem).resolve_left hne
  next hrecycled =>
    split at hreserve
    next hlt =>
      simp only [Option.some.injEq, Prod.mk.injEq] at hreserve
      obtain ⟨rfl, rfl⟩ := hreserve
      refine ⟨fun w => SlotTable.weight_next rfl hlookup (hs.fresh _ (Nat.le_refl _)), rfl,
        fun j hj hne => ⟨?_, id⟩⟩
      change j < r.table.next + 1 at hj
      omega
    next => cases hreserve

/-- A slot number that was handed out is given back, where there is no memory. -/
theorem giveBack (hs : r.Slotted) (h : r.Accounted r.collector.waiting released)
    {table : SlotTable} {i : Nat} (hreserve : r.table.reserve? = some (i, table)) :
    Accounted { r with table := table.recycle i } r.collector.waiting released := by
  obtain ⟨hweight, hoccupied, hcovers⟩ := reserve hs hreserve
  have hlookup := SlotTable.lookup_of_reserve? hreserve
  -- The list of numbers to be handed out again does not count for anything.
  have hrecycle : ∀ w, (table.recycle i).weight w = r.table.weight w := hweight
  constructor
  case covered =>
    intro j hj hvacant
    change j < table.next at hj
    change table.lookup j = .vacant at hvacant
    show j ∈ i :: table.recycled ∨ _
    by_cases hji : j = i
    · exact .inl (hji ▸ List.mem_cons_self)
    · obtain ⟨hold, hrecycled⟩ := hcovers j hj hji
      rw [hlookup] at hvacant
      exact (h.covered j hold hvacant).imp_left fun hmem => List.mem_cons_of_mem _ (hrecycled hmem)
  case counted =>
    show table.occupied.toNat = (table.recycle i).weight _
    rw [hrecycle, hoccupied]
    exact h.counted
  case published =>
    show r.segments.size = (table.recycle i).weight _ + _ + _
    rw [hrecycle]
    exact h.published
  case charged =>
    show r.bytesInUse = (table.recycle i).weight r.bytesOf + _
    rw [hrecycle]
    exact h.charged
  case priced => exact h.priced
  case limited => exact h.limited

theorem fails (hs : r.Slotted) (h : r.Accounted r.collector.waiting released)
    (hfails : r.Fails r') : r'.Accounted r'.collector.waiting released := by
  cases hfails with
  | unchanged => exact h
  | givenBack reserved => exact h.giveBack hs reserved

/-- An allocation takes a slot number into use and pays for its segment. -/
theorem allocate (hs : r.Slotted) (h : r.Accounted r.collector.waiting released) {size i : Nat}
    (hgranted : r.allocate? size = some (i, r')) :
    r'.Accounted r'.collector.waiting released := by
  have hgrows := grows_of_allocate? hgranted
  obtain ⟨hlimit, -⟩ := le_limits_of_allocate? hgranted
  obtain ⟨table, hreserve, hr'⟩ := allocate?_inv hgranted
  have htable : r'.table = table.publish i r.segments.size := by rw [hr']
  have hbytes : r'.bytesInUse = r.bytesInUse + footprint size r.wordSize := by rw [hr']
  obtain ⟨hvacant, -, hlt, hunrecycled, hagrees⟩ := SlotTable.Agrees.reserve hs hreserve
  obtain ⟨hweight, hoccupied, hcovers⟩ := reserve hs hreserve
  have hlookup := SlotTable.lookup_of_reserve? hreserve
  -- The new segment adds its own weight, whatever the weights are.
  have hadded : ∀ w, r'.table.weight w = r.table.weight w + w r.segments.size := by
    intro w
    rw [htable, SlotTable.weight_publish hlt ((hlookup i).trans hvacant), hweight]
  -- What is in use or waits has the size that it had.
  have hsizes : ∀ n, n < r.segments.size → r'.bytesOf n = r.bytesOf n := fun n hn => by
    rw [hgrows.bytesOf_eq, if_neg (Nat.ne_of_lt hn)]
  have hsame : r.table.weight r'.bytesOf = r.table.weight r.bytesOf :=
    SlotTable.weight_congr rfl fun j => Slot.weigh_congr fun n hn =>
      hsizes n (lt_size_of_slotOf? (hs.held j n hn))
  have hone := hadded fun _ => 1
  have hcounted := h.counted
  have hpublished := h.published
  have hcharged := h.charged
  rw [hgrows.collector_eq]
  constructor
  case covered =>
    intro j hj hj'
    have hne : j ≠ i := by
      rintro rfl
      cases hgrows.self.symm.trans hj'
    rw [htable, SlotTable.publish, SlotTable.next_set] at hj
    rw [htable, SlotTable.publish, SlotTable.recycled_set]
    obtain ⟨hold, hrecycled⟩ := hcovers j hj hne
    exact (h.covered j hold (hgrows.others j hne ▸ hj')).imp_left hrecycled
  case counted =>
    -- The counter does not overflow: it counts slot numbers.
    have hle := r.table.weight_one_le
    have hbounded := hs.bounded
    have hmax : maxSegments < 2 ^ 64 - 1 := by decide
    have hcounter : r'.table.occupied = r.table.occupied + 1 := by
      rw [htable, SlotTable.publish, ← hoccupied]
      exact congrArg (· + 1) (SlotTable.occupied_set ..)
    rw [hone, hcounter, UInt64.toNat_add]
    show (r.table.occupied.toNat + 1) % 2 ^ 64 = _
    omega
  case published =>
    rw [hgrows.segments_eq, Array.size_push, hone]
    omega
  case charged =>
    rw [hadded, hgrows.bytesOf_eq, if_pos rfl, hsame, hbytes]
    omega
  case priced =>
    intro e he
    rw [hsizes _ (lt_size_of_slotOf? (hs.waitingHeld e he))]
    exact h.priced e he
  case limited =>
    rw [hbytes, hgrows.settings_eq]
    exact hlimit

/-! ## Collection -/

/-- A retired slot whose first wait is over goes on being waited for. -/
theorem unlinkRetired {e : Retirement} (hc : Collecting (e :: batch) r count)
    (hlinked : e.linked = true)
    (h : r.Accounted (e :: batch ++ r.collector.waiting) released) :
    (r.unlinkRetired e).Accounted (batch ++ (r.unlinkRetired e).collector.waiting) released := by
  have hentries : (r.unlinkRetired e).collector.entries = r.collector.entries ++
      [.inEpoch (r.collector.pin.unpin r.collector.epoch).epoch { e with linked := false }] :=
    Collector.entries_retire ..
  have hretired : r.table.lookup e.slot = .retired e.segment := by
    rw [hc.agrees.waitingSlot e List.mem_cons_self, Slot.afterRetire, hlinked]; rfl
  have hself := r.table.lookup_set_self e.slot .vacant
  have hothers : ∀ j, j ≠ e.slot →
      (r.unlinkRetired e).table.lookup j = r.table.lookup j := fun j hj =>
    r.table.lookup_set_ne _ (Ne.symm hj)
  -- Neither the retired slot nor the empty one counts.
  have hweight : ∀ w, (r.unlinkRetired e).table.weight w = r.table.weight w := by
    intro w
    refine SlotTable.weight_congr (SlotTable.next_set ..) fun j => ?_
    by_cases hj : j = e.slot
    · have hempty : (r.unlinkRetired e).table.lookup e.slot = .vacant := hself
      rw [hj, hretired, hempty]
      rfl
    · rw [hothers j hj]
  rw [waiting_eq, hentries, List.map_append]
  constructor
  case covered =>
    intro j hj hj'
    change j < (r.table.set e.slot .vacant).next at hj
    rw [SlotTable.next_set] at hj
    show j ∈ (r.table.set e.slot .vacant).recycled ∨ _
    rw [SlotTable.recycled_set]
    simp only [List.map_append, List.mem_append, List.map_cons, List.map_nil,
      List.mem_singleton]
    by_cases hje : j = e.slot
    · exact .inr (.inr (.inr hje))
    · rcases h.covered j hj (hothers j hje ▸ hj') with hrecycled | hwaiting
      · exact .inl hrecycled
      · rw [List.cons_append, List.map_cons, List.mem_cons, List.map_append,
          List.mem_append] at hwaiting
        exact .inr ((hwaiting.resolve_left hje).imp_right .inl)
  case counted =>
    show (if (r.table.lookup e.slot).isOccupied then (r.table.set e.slot .vacant).occupied - 1
      else (r.table.set e.slot .vacant).occupied).toNat = _
    rw [hweight, hretired, SlotTable.occupied_set]
    exact h.counted
  case published =>
    show r.segments.size = _
    have hpublished := h.published
    rw [hweight]
    simp only [List.length_append, List.length_cons, List.length_map, List.length_nil,
      waiting_eq] at hpublished ⊢
    omega
  case charged =>
    show r.bytesInUse = (r.unlinkRetired e).table.weight r.bytesOf + _
    have hcharged := h.charged
    rw [hweight]
    simp only [List.map_append, List.sum_append, List.map_cons, List.sum_cons, List.map_nil,
      List.sum_nil, List.cons_append, waiting_eq] at hcharged ⊢
    show _ = _ + (_ + (_ + (e.bytes + 0)))
    omega
  case priced =>
    intro x hx
    show x.bytes = r.bytesOf x.segment
    rcases List.mem_append.1 hx with hbatch | hx
    · exact h.priced x (List.mem_append_left _ (List.mem_cons_of_mem _ hbatch))
    · rcases List.mem_append.1 hx with hold | hnew
      · exact h.priced x (List.mem_append_right _ hold)
      · rw [List.map_singleton, List.mem_singleton] at hnew
        rw [hnew]
        exact h.priced e List.mem_cons_self
  case limited => exact h.limited

/-- A segment that is released gives its bytes and its slot number back. -/
theorem release {e : Retirement} (hc : Collecting (e :: batch) r count)
    (hlinked : e.linked = false)
    (h : r.Accounted (e :: batch ++ r.collector.waiting) released) :
    (r.release e).Accounted (batch ++ (r.release e).collector.waiting) (released + 1) := by
  have hempty : r.table.lookup e.slot = .vacant := by
    rw [hc.agrees.waitingSlot e List.mem_cons_self, Slot.afterRetire, hlinked]; rfl
  have hslot := hc.agrees.waitingHeld e List.mem_cons_self
  obtain ⟨hfirst, -⟩ := List.nodup_cons.1 hc.agrees.waitingOnce
  have hsizes : ∀ n, n ≠ e.segment → (r.release e).bytesOf n = r.bytesOf n := by
    intro n hn
    simp [bytesOf, segment?, Region.release, wordSize,
      Array.getElem?_setIfInBounds_ne (Ne.symm hn)]
  -- No slot in use holds the segment, and no other retirement names it.
  have hweight : (r.release e).table.weight (r.release e).bytesOf = r.table.weight r.bytesOf := by
    refine SlotTable.weight_congr rfl fun i => Slot.weigh_congr fun n hn => hsizes n ?_
    rintro rfl
    have hi := hc.agrees.held i _ hn
    rw [hslot] at hi
    cases hi
    rw [show (r.release e).table.lookup e.slot = .vacant from hempty] at hn
    cases hn
  have hprice := h.priced e List.mem_cons_self
  constructor
  case covered =>
    intro j hj hj'
    show j ∈ e.slot :: r.table.recycled ∨ _
    rw [List.mem_cons]
    rcases h.covered j hj hj' with hrecycled | hwaiting
    · exact .inl (.inr hrecycled)
    · rw [List.cons_append, List.map_cons, List.mem_cons] at hwaiting
      rcases hwaiting with hje | hrest
      · exact .inl (.inl hje)
      · exact .inr hrest
  case counted => exact h.counted
  case published =>
    show (r.segments.setIfInBounds e.segment none).size = r.table.weight _ + _ + _
    have hpublished := h.published
    rw [List.cons_append, List.length_cons] at hpublished
    rw [Array.size_setIfInBounds]
    show _ = _ + (batch ++ r.collector.waiting).length + _
    omega
  case charged =>
    show r.bytesInUse - e.bytes = _
    have hcharged := h.charged
    rw [List.cons_append, List.map_cons, List.sum_cons] at hcharged
    rw [hweight]
    show _ = _ + ((batch ++ r.collector.waiting).map Retirement.bytes).sum
    omega
  case priced =>
    intro x hx
    have hx' : x ∈ batch ++ r.collector.waiting := hx
    rw [hsizes x.segment fun heq => ?_]
    · exact h.priced x (List.mem_cons_of_mem _ hx')
    · have hxslot := hc.agrees.waitingHeld x (List.mem_cons_of_mem _ hx')
      rw [heq, hslot] at hxslot
      exact hfirst (Option.some.inj hxslot ▸ List.mem_map_of_mem hx')
  case limited => exact Nat.le_trans (Nat.sub_le ..) h.limited

theorem foldl (hc : Collecting batch r count)
    (h : r.Accounted (batch ++ r.collector.waiting) released) :
    (batch.foldl afterWait r).Accounted (batch.foldl afterWait r).collector.waiting
      (released + batch.countP (!·.linked)) := by
  induction batch generalizing r released with
  | nil => exact h
  | cons e rest ih =>
    rw [List.foldl_cons]
    cases hlinked : e.linked with
    | true =>
      rw [List.countP_cons_of_neg (by simp [hlinked]), afterWait, if_pos hlinked]
      exact ih (unlinkRetired_spec hc hlinked).2 (h.unlinkRetired hc hlinked)
    | false =>
      rw [List.countP_cons_of_pos (by simp [hlinked]), afterWait, if_neg (by simp [hlinked]),
        show released + (rest.countP (!·.linked) + 1)
          = released + 1 + rest.countP (!·.linked) by omega]
      exact ih (release_spec hc hlinked).2 (h.release hc hlinked)

/-- What is released is not counted as reclaimed before the collection ends. -/
theorem reclaimed_foldl (r : Region) (batch : List Retirement) :
    (batch.foldl afterWait r).reclaimed = r.reclaimed := by
  induction batch generalizing r with
  | nil => rfl
  | cons e rest ih =>
    refine (ih _).trans ?_
    unfold afterWait
    split <;> rfl

/-- A collection keeps the account. -/
theorem collect (hs : r.Slotted) (ho : r.collector.InOrder)
    (ht : r.collector.clock.Tallies count)
    (h : r.Accounted r.collector.waiting r.reclaimed) :
    r.collect.2.Accounted r.collect.2.collector.waiting r.collect.2.reclaimed := by
  have hstart := collecting_takeExpired hs ho ht
  have hwaiting := r.collector.waiting_takeExpired
  have htaken : Accounted { r with collector := r.collector.takeExpired.2 }
      (r.collector.takeExpired.1 ++ r.collector.takeExpired.2.waiting) r.reclaimed := by
    rw [← hwaiting]
    exact h.congr (fun _ _ => rfl) (fun _ => id) rfl rfl rfl rfl rfl rfl rfl
  have hfold := foldl hstart htaken
  have hreclaimed : r.collect.2.reclaimed
      = r.reclaimed + r.collector.takeExpired.1.countP (!·.linked) :=
    congrArg (· + _) (reclaimed_foldl ..)
  rw [hreclaimed]
  exact hfold.congr (fun _ _ => rfl) (fun _ => id) rfl rfl rfl rfl rfl rfl rfl

/-! ## A new region -/

/-- Before anything is allocated, all accounts are empty. -/
theorem empty (settings : Settings) : Accounted { settings } [] 0 where
  covered := fun i hi => absurd hi (Nat.not_lt_zero i)
  counted := rfl
  published := rfl
  charged := rfl
  priced := fun _ he => absurd he List.not_mem_nil
  limited := Nat.zero_le _

theorem of_create {settings : Settings} (h : create settings = .ok r) :
    r.Accounted r.collector.waiting r.reclaimed := by
  obtain ⟨-, i, hallocate⟩ := create_inv h
  have hall := allocate (slotted_empty settings) (empty settings) hallocate
  obtain ⟨table, -, rfl⟩ := allocate?_inv hallocate
  exact hall

end Accounted

end Region

end TransactionalMemory
