import TransactionalMemory.Proofs.Region.Backing

/-! # Allocation

    An allocation puts a segment of zeros, under a number that was never used,
    into a slot that was vacant. Nothing else in the region changes, also when
    the slot number is one that is handed out again.

    An attempt that finds no memory gives the slot number and the bytes back.
    Slots hold what they held then, and still agree. -/

namespace TransactionalMemory

/-- The cell of a word that nobody has accessed. -/
def Cell.fresh (wordSize : Nat) : Cell where
  accessor := none
  value := List.replicate wordSize 0
  pending := none
  seq := 0

theorem Segment.control_zeroed (slot : Nat) {size wordSize w : Nat} (hw : w < size / wordSize) :
    (zeroed slot size wordSize).control w = .untouched := by
  show Control.unpack ((Array.replicate (size / wordSize) default)[w]?.getD default) = _
  rw [Array.getElem?_replicate, if_pos hw]
  rfl

theorem Segment.cell_zeroed (slot : Nat) {size wordSize : Nat} (hpos : 0 < wordSize)
    (hlanes : laneBytes ∣ wordSize) (hwhole : wordSize ∣ size) {w : Nat}
    (hw : w < (zeroed slot size wordSize).words) :
    (zeroed slot size wordSize).cell w = .fresh wordSize := by
  have hwords : w < size / wordSize := by simpa [words, zeroed] using hw
  simp only [cell, committedBytes, control_zeroed slot hwords,
    load_zeroed slot hpos hlanes hwhole _ hwords]
  rfl

/-- The address of a segment is that of its first byte. -/
theorem Address.toNat_ofParts {slot : Nat} (h : slot < maxSegments) :
    (Address.ofParts slot 0).bits.toNat = (slot + 1) * offsetSpan := by
  have hfits : (slot + 1) * offsetSpan < UInt64.size :=
    Nat.lt_of_le_of_lt (Nat.mul_le_mul_right _ h) (by decide)
  rw [ofParts, show UInt64.ofNat 0 = 0 from rfl, UInt64.or_zero, UInt64.toNat_ofNat_of_lt' hfits]

/-- The address of a segment names its slot. -/
theorem Address.slot?_ofParts {slot : Nat} (h : slot < maxSegments) :
    (Address.ofParts slot 0).slot? = some slot := by
  have hdiv : (slot + 1) * offsetSpan / offsetSpan = slot + 1 := Nat.mul_div_cancel _ (by decide)
  rw [slot?, toNat_ofParts h, hdiv]

theorem Address.offset_ofParts {slot : Nat} (h : slot < maxSegments) :
    (Address.ofParts slot 0).offset = 0 := by
  rw [offset, toNat_ofParts h, Nat.mul_mod_left]

namespace Region

variable {r r' : Region}

/-- The words and the controls of a region are as its settings ask for. -/
structure Sized (r : Region) : Prop where
  positive : 0 < r.wordSize
  lanes : laneBytes ∣ r.wordSize

theorem Sized.congr (h : r.Sized) (hwordSize : r'.wordSize = r.wordSize) : r'.Sized :=
  ⟨hwordSize ▸ h.positive, hwordSize ▸ h.lanes⟩

/-- What an allocation does, in whatever slot. -/
structure Grows (r r' : Region) (size i : Nat) : Prop where
  settings_eq : r'.settings = r.settings
  ids_eq : r'.ids = r.ids
  collector_eq : r'.collector = r.collector
  segments_eq : r'.segments = r.segments.push (some (.zeroed i size r.wordSize))
  self : r'.table.lookup i = .live r.segments.size
  others : ∀ j, j ≠ i → r'.table.lookup j = r.table.lookup j

/-- What an attempt to allocate can come to. -/
inductive AttemptCase (r : Region) (size : Nat) (memory : Bool) : Prop where
  /-- The segment is too large, or too many bytes are in use, or no slot is free. -/
  | refused (why : maxSegmentBytes < size ∨
        r.settings.byteLimit < r.bytesInUse + footprint size r.wordSize ∨ r.table.reserve? = none)
      (outcome : r.tryAllocate size memory = (none, r))
  /-- There is no memory for the buffers, and the slot number is taken back. -/
  | undone {slot : Nat} {table : SlotTable} (nothing : memory = false)
      (spans : size ≤ maxSegmentBytes)
      (charged : r.bytesInUse + footprint size r.wordSize ≤ r.settings.byteLimit)
      (reserved : r.table.reserve? = some (slot, table))
      (outcome : r.tryAllocate size memory = (none, { r with table := table.recycle slot }))
  | granted {slot : Nat} {table : SlotTable} (enough : memory = true)
      (spans : size ≤ maxSegmentBytes)
      (charged : r.bytesInUse + footprint size r.wordSize ≤ r.settings.byteLimit)
      (reserved : r.table.reserve? = some (slot, table))
      (outcome : r.tryAllocate size memory = (some slot, { r with
        segments := r.segments.push (some (.zeroed slot size r.wordSize))
        table := table.publish slot r.segments.size
        bytesInUse := r.bytesInUse + footprint size r.wordSize }))

theorem attempt_cases (r : Region) (size : Nat) (memory : Bool) :
    r.AttemptCase size memory := by
  by_cases hspans : maxSegmentBytes < size
  · exact .refused (.inl hspans) (by simp only [tryAllocate, hspans, if_true])
  by_cases hcharge : r.settings.byteLimit < r.bytesInUse + footprint size r.wordSize
  · have hnone : r.charge? (footprint size r.wordSize) = none := if_pos hcharge
    exact .refused (.inr (.inl hcharge)) (by simp only [tryAllocate, hspans, if_false, hnone])
  have hsome : r.charge? (footprint size r.wordSize)
      = some (r.bytesInUse + footprint size r.wordSize) := if_neg hcharge
  cases hreserve : r.table.reserve? with
  | none =>
    -- The bytes that were charged are given back.
    refine .refused (.inr (.inr hreserve)) ?_
    simp only [tryAllocate, hspans, if_false, hsome, hreserve, Nat.add_sub_cancel]
  | some reserved =>
    obtain ⟨slot, table⟩ := reserved
    cases memory with
    | true =>
      refine .granted rfl (Nat.le_of_not_lt hspans) (Nat.le_of_not_lt hcharge) hreserve ?_
      simp only [tryAllocate, hspans, if_false, if_true, hsome, hreserve, Segment.create?]
    | false =>
      refine .undone rfl (Nat.le_of_not_lt hspans) (Nat.le_of_not_lt hcharge) hreserve ?_
      simp only [tryAllocate, hspans, if_false, hsome, hreserve, Segment.create?,
        Bool.false_eq_true, Nat.add_sub_cancel]

/-- The slot of a new segment and the region with it, where memory is at hand. -/
def allocate? (r : Region) (size : Nat) : Option (Nat × Region) :=
  match r.tryAllocate size true with
  | (none, _) => none
  | (some slot, r) => some (slot, r)

theorem allocate?_eq_some_iff {size i : Nat} :
    r.allocate? size = some (i, r') ↔ r.tryAllocate size true = (some i, r') := by
  unfold allocate?
  rcases r.tryAllocate size true with ⟨_ | slot, after⟩
  · simp
  · simp

/-- An attempt that succeeds has found memory. -/
theorem allocate?_of_attempt {size i : Nat} {memory : Bool}
    (h : r.tryAllocate size memory = (some i, r')) :
    memory = true ∧ r.allocate? size = some (i, r') := by
  have hmemory : memory = true := by
    cases r.attempt_cases size memory with
    | refused why heq => rw [heq] at h; cases h
    | undone nothing spans charged reserved heq => rw [heq] at h; cases h
    | granted enough spans charged reserved heq => exact enough
  subst hmemory
  exact ⟨rfl, allocate?_eq_some_iff.2 h⟩

/-- What there is after an attempt that fails. -/
inductive Fails (r : Region) : Region → Prop where
  | unchanged : r.Fails r
  /-- A slot number was handed out and is given back. -/
  | givenBack {i : Nat} {table : SlotTable} (reserved : r.table.reserve? = some (i, table)) :
      r.Fails { r with table := table.recycle i }

theorem fails_of_attempt {size : Nat} {memory : Bool}
    (h : r.tryAllocate size memory = (none, r')) : r.Fails r' := by
  cases r.attempt_cases size memory with
  | refused why heq => rw [heq] at h; cases h; exact .unchanged
  | undone nothing spans charged reserved heq => rw [heq] at h; cases h; exact .givenBack reserved
  | granted enough spans charged reserved heq => rw [heq] at h; cases h

/-- Where there is memory, an attempt that fails has not taken anything. -/
theorem eq_of_attempt {size : Nat} (h : r.tryAllocate size true = (none, r')) : r' = r := by
  cases r.attempt_cases size true with
  | refused why heq => rw [heq] at h; cases h; rfl
  | undone nothing spans charged reserved heq => cases nothing
  | granted enough spans charged reserved heq => rw [heq] at h; cases h

/-- Nothing but the table has changed. -/
theorem Fails.inv (h : r.Fails r') :
    ∃ table, (∀ i, table.lookup i = r.table.lookup i) ∧ r' = { r with table } := by
  cases h with
  | unchanged => exact ⟨r.table, fun _ => rfl, rfl⟩
  | @givenBack i table reserved =>
    have hlookup := SlotTable.lookup_of_reserve? reserved
    exact ⟨table.recycle i, hlookup, rfl⟩

theorem Fails.backed (h : r.Fails r') (hb : r.Backed) : r'.Backed := by
  obtain ⟨table, hlookup, rfl⟩ := h.inv
  constructor
  · intro i n hn
    exact hb.held i n (hlookup i ▸ hn)
  · intro x hx
    obtain ⟨hlt, hleaving⟩ := hb.waiting x hx
    exact ⟨hlt, fun j hj => hleaving j (hlookup j ▸ hj)⟩

/-- The slots still agree. -/
theorem Fails.slotted (h : r.Fails r') (hs : r.Slotted) : r'.Slotted := by
  cases h with
  | unchanged => exact hs
  | givenBack reserved => exact SlotTable.Agrees.giveBack hs reserved

theorem Fails.keeps (h : r.Fails r') {e i n : Nat} (hk : r.Keeps e i n) : r'.Keeps e i n := by
  obtain ⟨table, hlookup, rfl⟩ := h.inv
  unfold Keeps
  rw [hlookup]
  exact hk

theorem Fails.holds (h : r.Fails r') {e i n : Nat} (hh : r.Holds e i n) : r'.Holds e i n := by
  obtain ⟨table, hlookup, rfl⟩ := h.inv
  unfold Holds
  rw [hlookup]
  exact hh

/-- What there is of a segment that was allocated. -/
theorem allocate?_inv {size i : Nat} (h : r.allocate? size = some (i, r')) :
    ∃ table, r.table.reserve? = some (i, table) ∧
      r' = { r with
        segments := r.segments.push (some (.zeroed i size r.wordSize))
        table := table.publish i r.segments.size
        bytesInUse := r.bytesInUse + footprint size r.wordSize } := by
  unfold allocate? at h
  cases r.attempt_cases size true with
  | refused why heq => rw [heq] at h; cases h
  | undone nothing spans charged reserved heq => cases nothing
  | @granted slot table enough spans charged reserved heq =>
    rw [heq] at h
    cases h
    exact ⟨table, reserved, rfl⟩

/-- An allocation keeps to the memory limit, and an address spans what it allocates. -/
theorem le_limits_of_allocate? {size i : Nat} (h : r.allocate? size = some (i, r')) :
    r.bytesInUse + footprint size r.wordSize ≤ r.settings.byteLimit ∧ size ≤ maxSegmentBytes := by
  unfold allocate? at h
  cases r.attempt_cases size true with
  | refused why heq => rw [heq] at h; cases h
  | undone nothing spans charged reserved heq => cases nothing
  | granted enough spans charged reserved heq => exact ⟨charged, spans⟩

theorem grows_of_allocate? {size i : Nat} (h : r.allocate? size = some (i, r')) :
    r.Grows r' size i := by
  obtain ⟨table, hreserve, rfl⟩ := allocate?_inv h
  refine ⟨rfl, rfl, rfl, rfl, table.lookup_set_self i _, fun j hj => ?_⟩
  exact (table.lookup_set_ne _ (Ne.symm hj)).trans (SlotTable.lookup_of_reserve? hreserve j)

namespace Grows

variable {size i : Nat}

theorem wordSize_eq (h : r.Grows r' size i) : r'.wordSize = r.wordSize :=
  wordSize_congr h.settings_eq

/-- The new segment has a new number, and every other segment stays. -/
theorem segment?_eq (h : r.Grows r' size i) (n : Nat) :
    r'.segment? n =
      if n = r.segments.size then some (.zeroed i size r.wordSize) else r.segment? n := by
  unfold segment?
  rw [h.segments_eq, Array.getElem?_push]
  split <;> rfl

theorem size_le (h : r.Grows r' size i) : r.segments.size ≤ r'.segments.size := by
  rw [h.segments_eq, Array.size_push]
  exact Nat.le_succ _

theorem shaped (h : r.Grows r' size i) (hr : r.Shaped) (hsized : r.Sized)
    (hwhole : r.wordSize ∣ size) : r'.Shaped := by
  intro n s hn
  rw [h.segment?_eq] at hn
  rw [h.wordSize_eq]
  split at hn
  · cases hn
    exact ⟨Segment.shaped_zeroed i hsized.positive hsized.lanes hwhole, rfl⟩
  · exact hr n s hn

/-- The words of the new segment are fresh, and every other word stays. -/
theorem cell?_eq (h : r.Grows r' size i) (hsized : r.Sized) (hwhole : r.wordSize ∣ size)
    (ref : WordRef) :
    r'.cell? ref = r.cell? ref ∨
      (ref.segment = r.segments.size ∧ r.cell? ref = none ∧
        r'.cell? ref = some (.fresh r.wordSize)) := by
  by_cases hn : ref.segment = r.segments.size
  · have hold : r.cell? ref = none := by
      simp [cell?, segment?, hn]
    unfold cell?
    rw [h.segment?_eq, if_pos hn, Option.bind_some]
    by_cases hw : ref.word < (Segment.zeroed i size r.wordSize).words
    · refine .inr ⟨hn, hold, ?_⟩
      rw [if_pos hw, Segment.cell_zeroed i hsized.positive hsized.lanes hwhole hw]
    · refine .inl ?_
      rw [if_neg hw]
      exact hold.symm
  · refine .inl ?_
    unfold cell?
    rw [h.segment?_eq, if_neg hn]

theorem backed (h : r.Grows r' size i) (hb : r.Backed) : r'.Backed := by
  have hslots : ∀ j n, (r'.table.lookup j).segment? = some n →
      (j = i ∧ n = r.segments.size) ∨ (r.table.lookup j).segment? = some n := by
    intro j n hn
    by_cases hj : j = i
    · rw [hj, h.self] at hn
      cases hn
      exact .inl ⟨hj, rfl⟩
    · rw [h.others j hj] at hn
      exact .inr hn
  constructor
  · -- The new segment has the new slot, the others have the slots that they had.
    intro j n hn
    rcases hslots j n hn with ⟨rfl, rfl⟩ | hold
    · rw [slotOf?, h.segment?_eq, if_pos rfl]; rfl
    · have hheld := hb.held j n hold
      rw [slotOf?, h.segment?_eq, if_neg (Nat.ne_of_lt (lt_size_of_slotOf? hheld))]
      exact hheld
  · intro x hx
    rw [h.collector_eq] at hx
    obtain ⟨hlt, hleaving⟩ := hb.waiting x hx
    -- What waits is older than the new segment.
    refine ⟨Nat.lt_of_lt_of_le hlt h.size_le, fun j hj => ?_⟩
    rcases hslots j _ hj with ⟨-, heq⟩ | hold
    · exact absurd heq (Nat.ne_of_lt hlt)
    · exact hleaving j hold

end Grows

/-- What an allocation does as long as the slots agree: its slot was vacant. -/
structure Allocates (r r' : Region) (size i : Nat) : Prop extends r.Grows r' size i where
  vacant : r.table.lookup i = .vacant
  unawaited : i ∉ r.collector.waiting.map Retirement.slot
  slotted : r'.Slotted

theorem allocate?_spec (hs : r.Slotted) {size i : Nat} (h : r.allocate? size = some (i, r')) :
    r.Allocates r' size i := by
  have hgrows := grows_of_allocate? h
  obtain ⟨table, hreserve, rfl⟩ := allocate?_inv h
  obtain ⟨hvacant, hunawaited, hlt, hunrecycled, hagrees⟩ := SlotTable.Agrees.reserve hs hreserve
  refine ⟨hgrows, hvacant, hunawaited, ?_⟩
  refine hagrees.publish hlt hunrecycled hunawaited (n := r.segments.size) ?_ ?_ ?_
  · simp [slotOf?, segment?]
  · simp [slotOf?, segment?, Segment.zeroed]
  · intro m hm
    simp [slotOf?, segment?, Array.getElem?_push, hm]

namespace Allocates

variable {size i : Nat}

theorem keeps (h : r.Allocates r' size i) {e j n : Nat} (hk : r.Keeps e j n) :
    r'.Keeps e j n := by
  -- The slot that was given out is vacant and not waited for.
  have hji : j ≠ i := by
    intro heq
    rcases hk with hn | ⟨_, x, hx, hslot, _⟩
    · rw [heq, h.vacant] at hn; cases hn
    · exact h.unawaited (heq ▸ hslot ▸ List.mem_map_of_mem (List.mem_map_of_mem hx))
  unfold Keeps
  rw [h.others j hji, h.collector_eq]
  exact hk

theorem holds (h : r.Allocates r' size i) {e j n : Nat} (hh : r.Holds e j n) :
    r'.Holds e j n := by
  have hji : j ≠ i := by
    intro heq
    have hn := hh.1
    rw [heq, h.vacant] at hn
    cases hn
  unfold Holds
  rw [h.others j hji, h.collector_eq]
  exact hh

/-- The address that an allocation returns names the new slot. -/
theorem slot?_eq (h : r.Allocates r' size i) : (Address.ofParts i 0).slot? = some i :=
  Address.slot?_ofParts (h.slotted.lt_maxSegments (by rw [h.self]; nofun))

/-- Nobody has retired what was just allocated. -/
theorem holds_self (h : r.Allocates r' size i) (e : Nat) : r'.Holds e i r.segments.size := by
  refine ⟨by rw [h.self]; rfl, fun x hx hslot => ?_⟩
  rw [h.collector_eq] at hx
  exact absurd (hslot ▸ List.mem_map_of_mem (List.mem_map_of_mem hx)) h.unawaited

end Allocates

/-! ## A new region -/

/-- A word is a whole number of lanes, whatever power of two was asked for. -/
theorem laneBytes_dvd_wordSize {settings : Settings} (h : isPowerOfTwo settings.align = true) :
    laneBytes ∣ settings.wordSize := by
  have hpower : 1 <<< settings.align.log2 = settings.align := eq_of_beq h
  rw [Nat.one_shiftLeft] at hpower
  unfold Settings.wordSize minWordSize
  by_cases hle : settings.align ≤ 8
  · rw [Nat.max_eq_right hle]
    exact ⟨1, rfl⟩
  · have hlog : 3 ≤ settings.align.log2 := by
      by_cases hlt : settings.align.log2 < 3
      · have hsmall := Nat.pow_le_pow_right Nat.two_pos (Nat.le_of_lt hlt)
        rw [hpower] at hsmall
        exact absurd hsmall hle
      · omega
    rw [Nat.max_eq_left (by omega), ← hpower]
    exact Nat.pow_dvd_pow 2 hlog

/-- What a newly created region is like: it has its permanent segment, and
    nobody has done anything to it. -/
structure New (r : Region) : Prop where
  sized : r.Sized
  shaped : r.Shaped
  slotted : r.Slotted
  backed : r.Backed
  collector_eq : r.collector = {}
  ids_eq : r.ids = {}
  cells : ∀ ref c, r.cell? ref = some c → c = .fresh r.wordSize

/-- A region is created by one allocation, for settings that are in order. -/
theorem create_inv {settings : Settings} (h : create settings = .ok r) :
    isPowerOfTwo settings.align = true ∧
      ∃ i, allocate? { settings } settings.permanentSize = some (i, r) := by
  unfold create at h
  cases hcheck : settings.check with
  | error failure => rw [hcheck] at h; cases h
  | ok _ =>
    rw [hcheck] at h
    simp only at h
    have hpower : isPowerOfTwo settings.align = true := by
      unfold Settings.check at hcheck
      split at hcheck
      next hall => exact hall.1
      next => cases hcheck
    rcases hattempt : tryAllocate { settings } settings.permanentSize true with ⟨_ | i, r'⟩
    · rw [hattempt] at h; cases h
    · rw [hattempt] at h
      cases h
      exact ⟨hpower, i, allocate?_eq_some_iff.2 hattempt⟩

/-- A creation that succeeds has found memory. -/
theorem memory_of_create {settings : Settings} {memory : Bool}
    (h : create settings memory = .ok r) : memory = true := by
  unfold create at h
  split at h
  · cases h
  · split at h
    · cases h
    next hattempt => exact (allocate?_of_attempt hattempt).1

section

variable (settings : Settings)

theorem segment?_empty (n : Nat) : segment? { settings } n = none := by simp [segment?]

theorem lookup_empty (i : Nat) : SlotTable.lookup {} i = .vacant := by simp [SlotTable.lookup]

/-- Before anything is allocated, no slot holds a segment and nothing waits. -/
theorem slotted_empty : Slotted { settings } where
  bounded := Nat.zero_le _
  fresh := fun i _ => lookup_empty i
  recycledOnce := .nil
  recycledOld := fun _ hmem => absurd hmem List.not_mem_nil
  recycledVacant := fun _ hmem => absurd hmem List.not_mem_nil
  waitingOnce := .nil
  waitingOld := fun _ hmem => absurd hmem List.not_mem_nil
  waitingUnrecycled := fun _ hmem => absurd hmem List.not_mem_nil
  waitingSlot := fun _ hmem => absurd hmem List.not_mem_nil
  waitingHeld := fun _ hmem => absurd hmem List.not_mem_nil
  held := by
    intro i n hn
    rw [lookup_empty] at hn
    cases hn
  retired := by
    intro i hi
    rw [lookup_empty] at hi
    cases hi

theorem backed_empty : Backed { settings } where
  held := by
    intro i n hn
    rw [lookup_empty] at hn
    cases hn
  waiting := fun _ hmem => absurd hmem List.not_mem_nil

end

/-- The permanent segment is the first one, in the permanent slot, and in no
    other slot there is anything. -/
theorem lookup_of_create {settings : Settings} (h : create settings = .ok r) (i : Nat) :
    r.table.lookup i = if i = permanentSlot then .live 0 else .vacant := by
  obtain ⟨-, j, hallocate⟩ := create_inv h
  have hgrows := grows_of_allocate? hallocate
  obtain ⟨table, hreserve, -⟩ := allocate?_inv hallocate
  have hj : j = permanentSlot := by
    simp only [SlotTable.reserve?] at hreserve
    rw [if_pos (by decide)] at hreserve
    exact (congrArg Prod.fst (Option.some.inj hreserve)).symm
  subst hj
  split
  next heq => rw [heq]; exact hgrows.self
  next hne => exact (hgrows.others i hne).trans (lookup_empty i)

theorem new_of_create {settings : Settings} (h : create settings = .ok r) : r.New := by
  obtain ⟨hpower, i, hallocate⟩ := create_inv h
  have hsized : Sized { settings } :=
    ⟨Nat.lt_of_lt_of_le (by decide) (Nat.le_max_right settings.align minWordSize),
      laneBytes_dvd_wordSize hpower⟩
  have hwhole : (wordSize { settings }) ∣ settings.permanentSize := Nat.dvd_mul_left ..
  have hall := allocate?_spec (slotted_empty settings) hallocate
  constructor
  · exact hsized.congr hall.wordSize_eq
  · refine hall.shaped (fun n s hn => ?_) hsized hwhole
    rw [segment?_empty] at hn
    cases hn
  · exact hall.slotted
  · exact hall.backed (backed_empty settings)
  · exact hall.collector_eq
  · exact hall.ids_eq
  · -- There are no words but the new ones.
    intro ref c hc
    rw [hall.wordSize_eq]
    rcases hall.cell?_eq hsized hwhole ref with heq | ⟨_, _, hfresh⟩
    · rw [heq, cell?, segment?_empty] at hc
      cases hc
    · rw [hfresh] at hc
      exact (Option.some.inj hc).symm

end Region

end TransactionalMemory
