import TransactionalMemory.Proofs.Region.Arithmetic
import TransactionalMemory.Proofs.Session.Ranges

/-! # What a creation comes to

    Settings are in order if the alignment is a power of two and the size a
    positive multiple of it that one address can span. A creation comes to one of
    three ends:

    1. The settings are not in order, and it fails with the layout.
    2. They are, and the permanent segment takes more bytes than the limit, or there
       is no memory for its buffers: it fails for want of memory.
    3. Otherwise there is a session. Its permanent segment has the size asked for,
       rounded up to whole words, and all of it and nothing beyond it is there to
       be read, as zeros.

    Neither the creation nor any later allocation, whatever its size, takes more
    than 64 bits for a size or divides by zero. -/

namespace TransactionalMemory

/-! ## Settings -/

/-- The bits of a number tell whether it is a power of two. -/
theorem isPowerOfTwo_iff {n : Nat} : isPowerOfTwo n = true ↔ ∃ k, n = 2 ^ k := by
  unfold isPowerOfTwo
  rw [beq_iff_eq, Nat.one_shiftLeft]
  constructor
  · intro h
    exact ⟨n.log2, h.symm⟩
  · rintro ⟨k, rfl⟩
    rw [Nat.log2_two_pow]

namespace Settings

variable {settings : Settings}

/-- The layout is sound. -/
structure InOrder (s : Settings) : Prop where
  power : ∃ k, s.align = 2 ^ k
  positive : s.size ≠ 0
  multiple : s.align ∣ s.size
  spanned : s.size ≤ 2 ^ 40

theorem inOrder_iff : settings.InOrder ↔ isPowerOfTwo settings.align = true ∧
    settings.size ≠ 0 ∧ settings.size % settings.align = 0 ∧ settings.size ≤ maxSegmentBytes := by
  have hspan : maxSegmentBytes = 2 ^ 40 := by decide
  rw [hspan]
  constructor
  · rintro ⟨hpower, hpositive, hmultiple, hspanned⟩
    exact ⟨isPowerOfTwo_iff.2 hpower, hpositive, Nat.mod_eq_zero_of_dvd hmultiple, hspanned⟩
  · rintro ⟨hpower, hpositive, hmultiple, hspanned⟩
    exact ⟨isPowerOfTwo_iff.1 hpower, hpositive, Nat.dvd_of_mod_eq_zero hmultiple, hspanned⟩

theorem not_inOrder_iff : ¬ settings.InOrder ↔ (¬ ∃ k, settings.align = 2 ^ k) ∨
    settings.size = 0 ∨ ¬ settings.align ∣ settings.size ∨ 2 ^ 40 < settings.size := by
  constructor
  · intro hnot
    apply Classical.byContradiction
    intro hnone
    simp only [not_or, Classical.not_not, Nat.not_lt] at hnone
    obtain ⟨hpower, hpositive, hmultiple, hspanned⟩ := hnone
    exact hnot ⟨hpower, hpositive, hmultiple, hspanned⟩
  · rintro hreason ⟨hpower, hpositive, hmultiple, hspanned⟩
    rcases hreason with hno | hzero | hpart | hlarge
    · exact hno hpower
    · exact hpositive hzero
    · exact hpart hmultiple
    · omega

/-- A size that an address spans is still spanned when it is rounded up. -/
theorem InOrder.permanentSize_le (h : settings.InOrder) :
    settings.permanentSize ≤ maxSegmentBytes := by
  have hspan : maxSegmentBytes = 2 ^ 40 := by decide
  have hspanned := h.spanned
  rw [hspan, permanentSize, roundUp_eq settings.wordSize_pos]
  by_cases hwide : minWordSize ≤ settings.align
  · -- The size is a multiple of the word already.
    have hwhole : settings.size % settings.wordSize = 0 := by
      rw [wordSize, Nat.max_eq_left hwide]
      exact Nat.mod_eq_zero_of_dvd h.multiple
    rw [if_pos hwhole]
    exact hspanned
  · -- The word has eight bytes, and the span is a multiple of it.
    have hword : settings.wordSize = 8 := Nat.max_eq_right (Nat.le_of_not_le hwide)
    rw [hword]
    split
    · exact hspanned
    · omega

end Settings

namespace Region

variable {r : Region} {settings : Settings} {memory : Bool}

theorem create_of_not_inOrder (h : ¬ settings.InOrder) :
    create settings memory = .error (.invalidLayout settings.size settings.align) := by
  have hcheck : settings.check = .error (.invalidLayout settings.size settings.align) :=
    if_neg (mt Settings.inOrder_iff.2 h)
  unfold create
  rw [hcheck]

theorem create_of_inOrder (h : settings.InOrder) : create settings memory =
    match tryAllocate { settings } settings.permanentSize memory with
    | (none, _) => .error .outOfMemory
    | (some _, r) => .ok r := by
  have hcheck : settings.check = .ok () := if_pos (Settings.inOrder_iff.1 h)
  rcases hattempt : tryAllocate { settings } settings.permanentSize memory with ⟨_ | slot, r⟩
  · simp only [create, hcheck, hattempt]
  · simp only [create, hcheck, hattempt]

/-- The limit decides on settings that are in order, as long as there is memory. -/
theorem create_outOfMemory_iff (h : settings.InOrder) (memory : Bool) :
    create settings memory = .error .outOfMemory ↔
      memory = false ∨ settings.byteLimit < footprint settings.permanentSize settings.wordSize := by
  have hspan := h.permanentSize_le
  have hwordSize : wordSize { settings } = settings.wordSize := rfl
  rw [create_of_inOrder h]
  cases attempt_cases { settings } settings.permanentSize memory with
  | refused why heq =>
    rw [heq]
    refine ⟨fun _ => ?_, fun _ => rfl⟩
    rcases why with hlarge | hcharge | hnone
    · omega
    · rw [Nat.zero_add, hwordSize] at hcharge
      exact .inr hcharge
    · cases hnone
  | undone nothing spans charged reserved heq =>
    rw [heq]
    exact ⟨fun _ => .inl nothing, fun _ => rfl⟩
  | granted enough spans charged reserved heq =>
    rw [heq, enough]
    rw [Nat.zero_add, hwordSize] at charged
    constructor
    · intro hfailed
      cases hfailed
    · rintro (hfalse | hbeyond)
      · cases hfalse
      · exact absurd charged (Nat.not_le_of_lt hbeyond)

/-- Without a limit there is always enough. -/
theorem byteLimit_lt_iff (h : settings.InOrder) :
    settings.byteLimit < footprint settings.permanentSize settings.wordSize ↔
      ∃ limit ∈ settings.memoryLimit, limit < footprint settings.permanentSize
        settings.wordSize := by
  obtain ⟨-, htotal⟩ := footprint_le h.permanentSize_le settings.wordSize
  have hmax : maxBytes = 2 ^ 64 - 1 := by decide
  unfold Settings.byteLimit
  cases settings.memoryLimit with
  | none => simp; omega
  | some limit => simp

/-- In a region that was created, no id was given out, nobody has passed the gate,
    and the permanent segment is the first one. -/
theorem parts_of_create (h : create settings = .ok r) : r.ids = {} ∧
    r.gate = { policy := settings.admission } ∧
    r.segment? 0 = some (.zeroed permanentSlot settings.permanentSize settings.wordSize) := by
  obtain ⟨-, i, hallocate⟩ := create_inv h
  have hslot := lookup_of_create h permanentSlot
  rw [if_pos rfl] at hslot
  have hgrows := grows_of_allocate? hallocate
  have hi : i = permanentSlot := by
    apply Classical.byContradiction
    intro hne
    rw [hgrows.others _ (Ne.symm hne), lookup_empty] at hslot
    cases hslot
  obtain ⟨table, -, rfl⟩ := allocate?_inv hallocate
  refine ⟨rfl, rfl, ?_⟩
  rw [hgrows.segment?_eq, hi]
  rfl

/-- A release gives bytes back. -/
theorem bytesInUse_collect_le (r : Region) : r.collect.2.bytesInUse ≤ r.bytesInUse := by
  have hfold : ∀ (expired : List Retirement) (r : Region),
      (expired.foldl afterWait r).bytesInUse ≤ r.bytesInUse := by
    intro expired
    induction expired with
    | nil => exact fun r => Nat.le_refl _
    | cons e rest ih =>
      intro r
      apply Nat.le_trans (ih (r.afterWait e))
      unfold afterWait
      split
      · exact Nat.le_refl _
      · exact Nat.sub_le ..
  exact hfold _ { r with collector := r.collector.takeExpired.2 }

end Region

theorem Transaction.bytesInUse_conclusion (t : Transaction) (r : Region) (committed : Bool) :
    (t.conclusion r committed).bytesInUse = r.bytesInUse := by
  obtain ⟨gate, commits, aborts, heq⟩ := t.conclusion_eq r committed
  rw [heq, (t.rearranges_rearranged r committed).rest,
    (r.settleWords_spec t.id committed t.touched).1.rest]

/-- The range lies in the first `size` bytes of the permanent segment, and is one
    of whole words, at least one. -/
structure Address.Covers (a : Address) (length wordSize size : Nat) : Prop where
  slot : a.slot? = some Region.permanentSlot
  aligned : wordSize ∣ a.offset
  whole : wordSize ∣ length
  positive : 0 < length
  within : a.offset + length ≤ size

namespace Session

variable {orderly : Prop} {s s' start : Session} {events : History} {settings : Settings}
  {h : Handle} {t : Transaction} {a : Address} {length slot n : Nat} {seg : Segment}

/-! ## The bytes in use -/

/-- The bytes in use are within the limit of the settings. -/
structure Limited (settings : Settings) (s : Session) : Prop where
  settings_eq : s.region.settings = settings
  limited : s.region.bytesInUse ≤ settings.byteLimit

/-- Every effect keeps to the limit, orderly or not. -/
theorem Limited.effect (h : s.Limited settings) (e : Effect orderly s events s') :
    s'.Limited settings := by
  constructor
  · exact (settings_effect e).trans h.settings_eq
  have hlimited := h.limited
  cases e with
  | began identified =>
    rw [(begins_enter identified).bytesInUse_eq]
    exact hlimited
  | accessed isOpen readWrite found step =>
    obtain ⟨_, _, _, _, hbecomes, _⟩ := step.inv
    rw [region_put, hbecomes.toSameButWords.rest]
    exact hlimited
  | doomed isOpen => exact hlimited
  | allocated isOpen readWrite whole granted =>
    obtain ⟨hcharged, -⟩ := Region.le_limits_of_allocate? granted
    obtain ⟨table, -, rfl⟩ := Region.allocate?_inv granted
    rw [h.settings_eq] at hcharged
    exact hcharged
  | missed fails =>
    obtain ⟨table, -, rfl⟩ := fails.inv
    exact hlimited
  | freed isOpen readWrite live removable => exact hlimited
  | ended isOpen valid gives =>
    rw [region_put, Transaction.bytesInUse_conclusion]
    exact hlimited
  | collected => exact Nat.le_trans s.region.bytesInUse_collect_le hlimited

theorem limited_of_create (hcreate : create settings = .ok start) : start.Limited settings := by
  obtain ⟨r, hregion, rfl⟩ := create_inv hcreate
  obtain ⟨-, i, hallocate⟩ := Region.create_inv hregion
  obtain ⟨hcharged, -⟩ := Region.le_limits_of_allocate? hallocate
  obtain ⟨table, -, rfl⟩ := Region.allocate?_inv hallocate
  exact ⟨rfl, hcharged⟩

/-- After every run the bytes in use are within the limit. -/
theorem limited_run (hcreate : create settings = .ok start) (operations : List Operation) :
    (start.run operations).2.Limited settings := by
  have heffects : Effects False start _ _ :=
    effects_record (steady_of_create hcreate) operations nofun
  exact heffects.keep (P := Limited settings) (fun e h => h.effect e) (limited_of_create hcreate)

/-! ## A new session -/

/-- A transaction of either kind can begin. -/
theorem begin_of_create (hcreate : create settings = .ok start) (readOnly : Bool) :
    (start.begin readOnly).1 = .started 0 ∧ ∃ mode, Begins start (start.begin readOnly).2
      { mode, epoch := start.region.collector.epoch } := by
  obtain ⟨-, hnobody⟩ := new_of_create hcreate
  obtain ⟨r, hregion, rfl⟩ := create_inv hcreate
  obtain ⟨hids, hgate, -⟩ := Region.parts_of_create hregion
  have hadmits : r.gate.admits readOnly = true := by
    rw [hgate]
    cases settings.admission <;> cases readOnly <;> rfl
  obtain ⟨⟨mode, region⟩, hidentified⟩ : ∃ found, r.identify? readOnly = .ok found := by
    unfold Region.identify?
    rw [hids]
    cases readOnly with
    | true => exact ⟨_, rfl⟩
    | false => exact ⟨_, rfl⟩
  have hbegin : ({ region := r } : Session).begin readOnly =
      (.started 0, (enter { region } mode).2) := by
    unfold begin
    rw [if_pos hadmits, hidentified]
    rfl
  rw [hbegin]
  exact ⟨rfl, mode, begins_enter hidentified⟩

/-- The only segment is the permanent one, and nobody has accessed its words. -/
structure Fresh (settings : Settings) (s : Session) : Prop where
  wordSize_eq : s.region.wordSize = settings.wordSize
  lookup : ∀ i, s.region.table.lookup i = if i = Region.permanentSlot then .live 0 else .vacant
  found : s.region.segment? 0 =
    some (.zeroed Region.permanentSlot settings.permanentSize settings.wordSize)

/-- Nothing is accessed by beginning. -/
theorem Fresh.of_begins (hcreate : create settings = .ok start) (hbegins : Begins start s t) :
    s.Fresh settings := by
  have hsettings := (limited_of_create hcreate).settings_eq
  constructor
  · exact congrArg Settings.wordSize (hbegins.settings_eq.trans hsettings)
  · intro i
    rw [hbegins.table_eq]
    exact lookup_of_create hcreate i
  · obtain ⟨r, hregion, rfl⟩ := create_inv hcreate
    rw [Region.segment?, hbegins.segments_eq]
    exact (Region.parts_of_create hregion).2.2

/-- So there is one slot that a transaction may use. -/
theorem Fresh.slot_eq (hfresh : s.Fresh settings)
    (huse : t.MayUse (s.region.table.lookup slot) n) : slot = Region.permanentSlot ∧ n = 0 := by
  rw [hfresh.lookup] at huse
  by_cases hslot : slot = Region.permanentSlot
  · rw [if_pos hslot] at huse
    rcases huse with hlive | ⟨-, hlive | hlive⟩
    · exact ⟨hslot, (Slot.live.inj hlive).symm⟩
    · cases hlive
    · cases hlive
  · rw [if_neg hslot] at huse
    rcases huse with hvacant | ⟨-, hvacant | hvacant⟩ <;> cases hvacant

/-- The ranges that fit are those that the permanent segment covers. -/
theorem Fresh.fits_iff (hfresh : s.Fresh settings) : t.Fits s.region a length slot n seg ↔
    slot = Region.permanentSlot ∧ n = 0 ∧
      seg = .zeroed Region.permanentSlot settings.permanentSize settings.wordSize ∧
      a.Covers length settings.wordSize settings.permanentSize := by
  have hword := hfresh.wordSize_eq
  constructor
  · intro h
    obtain ⟨rfl, rfl⟩ := hfresh.slot_eq h.mayUse
    have hseg := h.found
    rw [hfresh.found] at hseg
    cases hseg
    refine ⟨rfl, rfl, rfl, ?_⟩
    constructor
    · exact Address.slot?_eq_some_iff.2 h.named
    · exact hword ▸ h.aligned
    · exact hword ▸ h.whole
    · exact h.positive
    · exact h.within
  · rintro ⟨rfl, rfl, rfl, hcovers⟩
    constructor
    · exact Address.slot?_eq_some_iff.1 hcovers.slot
    · left
      rw [hfresh.lookup, if_pos rfl]
    · exact hfresh.found
    · exact hword ▸ hcovers.aligned
    · exact hword ▸ hcovers.whole
    · exact hcovers.positive
    · exact hcovers.within

/-- Whoever reads a word that nobody has accessed finds zeros. -/
theorem finds_zeroed (t : Transaction) {slot size wordSize w : Nat} (hpos : 0 < wordSize)
    (hlanes : laneBytes ∣ wordSize) (hwhole : wordSize ∣ size)
    (hw : w < (Segment.zeroed slot size wordSize).words) :
    t.finds (.zeroed slot size wordSize) w = List.replicate wordSize 0 := by
  have hcell := Segment.cell_zeroed slot hpos hlanes hwhole hw
  have hvalue : (Segment.zeroed slot size wordSize).committedBytes w
      = List.replicate wordSize 0 := congrArg Cell.value hcell
  unfold Transaction.finds
  rw [hvalue, hcell]
  split
  · rfl
  · simp [Cell.pendingOf, Cell.fresh]

/-- What is found in several words is found in them one by one. -/
theorem flatMap_zeros {found : Nat → List UInt8} {width : Nat} (first count : Nat)
    (h : ∀ w, w < first + count → found w = List.replicate width 0) :
    (List.range' first count).flatMap found = List.replicate (count * width) 0 := by
  induction count generalizing first with
  | zero => simp
  | succ count ih =>
    have hnext : ∀ w, w < first + 1 + count → found w = List.replicate width 0 := by
      intro w hw
      apply h
      omega
    rw [List.range'_succ, List.flatMap_cons, h first (by omega), ih (first + 1) hnext,
      List.replicate_append_replicate, Nat.succ_mul, Nat.add_comm]

/-- No word that nobody has accessed is barred from reading. -/
theorem reads_zeroed {size wordSize : Nat}
    (hleads : s.LeadsTo h t a length n (.zeroed slot size wordSize)) :
    ∃ bytes, (s.read h a length).1 = some (.ok bytes) := by
  cases hro : t.isReadOnly with
  | true => exact (hleads.shared hro).1
  | false =>
    have haccesses := hleads.read hro
    rcases haccesses.answered with hdone | hfailed
    · exact hdone
    · obtain ⟨k, hk, hwritten, -⟩ := haccesses.fails_iff.1 hfailed
      have hlast : a.offset / s.region.wordSize + k < (a.offset + length) / s.region.wordSize := by
        rw [hleads.count]
        exact Nat.add_lt_add_left hk _
      obtain ⟨hlt, -⟩ := hleads.words _ hlast
      rw [Segment.words, Segment.zeroed, Array.size_replicate] at hlt
      rw [Segment.control_zeroed slot hlt] at hwritten
      cases hwritten

/-- In a new session, a transaction that has just begun reads whole words of the
    permanent segment and nothing else, and finds zeros. -/
theorem read_of_create (hcreate : create settings = .ok start) (readOnly : Bool) (a : Address)
    (length : Nat) (bytes : List UInt8) :
    ((start.begin readOnly).2.read 0 a length).1 = some (.ok bytes) ↔
      a.Covers length settings.wordSize settings.permanentSize ∧
        bytes = List.replicate length 0 := by
  obtain ⟨-, mode, hbegins⟩ := begin_of_create hcreate readOnly
  obtain ⟨hnew, hnobody⟩ := new_of_create hcreate
  have hpos := settings.wordSize_pos
  have hwhole : settings.wordSize ∣ settings.permanentSize := Nat.dvd_mul_left ..
  have hlanes : laneBytes ∣ settings.wordSize :=
    (limited_of_create hcreate).settings_eq ▸ hnew.sized.lanes
  generalize hs : (start.begin readOnly).2 = s at hbegins ⊢
  have hfresh := Fresh.of_begins hcreate hbegins
  have ho := hbegins.self
  rw [hnobody] at ho
  have horderly : start.Orderly [.begin readOnly] := ⟨trivial, trivial⟩
  have hresolves := (run_resolves hcreate horderly hs).1 0 _ ho rfl a length
  have hzeros : ∀ bytes, a.Covers length settings.wordSize settings.permanentSize →
      (s.read 0 a length).1 = some (.ok bytes) → bytes = List.replicate length 0 := by
    intro bytes hcovers hread
    have hleads := hresolves.leadsTo _ _ _ (hfresh.fits_iff.2 ⟨rfl, rfl, rfl, hcovers⟩)
    rw [hleads.returned bytes hread, flatMap_zeros, hfresh.wordSize_eq,
      Nat.div_mul_cancel hcovers.whole]
    · intro w hw
      rw [← hleads.count] at hw
      exact finds_zeroed _ hpos hlanes hwhole (hleads.words w hw).1
  constructor
  · intro hread
    cases hresolve : Transaction.resolve _ s.region a length with
    | error failure =>
      rw [(hresolves.rejected failure hresolve).1] at hread
      cases hread
    | ok first =>
      obtain ⟨slot, n, seg, hfits⟩ := hresolves.accepted_iff.1 ⟨first, hresolve⟩
      obtain ⟨-, -, -, hcovers⟩ := hfresh.fits_iff.1 hfits
      exact ⟨hcovers, hzeros bytes hcovers hread⟩
  · rintro ⟨hcovers, rfl⟩
    have hleads := hresolves.leadsTo _ _ _ (hfresh.fits_iff.2 ⟨rfl, rfl, rfl, hcovers⟩)
    obtain ⟨bytes, hread⟩ := reads_zeroed hleads
    rw [hread, hzeros bytes hcovers hread]

/-- What a new session with these settings is like. -/
structure Offers (settings : Settings) (start : Session) : Prop where
  size_eq : start.region.size = settings.size
  wordSize_eq : start.region.wordSize = max settings.align 8
  begins : ∀ readOnly, (start.begin readOnly).1 = .started 0
  /-- Every word of the permanent segment is zero for transactions of both kinds. -/
  words : ∀ readOnly k, k < settings.permanentSize → max settings.align 8 ∣ k →
    ((start.begin readOnly).2.read 0 (Region.start.advance k) (max settings.align 8)).1 =
      some (.ok (List.replicate (max settings.align 8) 0))
  /-- They can read several of them at once, and nothing else. -/
  ranges : ∀ readOnly a length bytes,
    ((start.begin readOnly).2.read 0 a length).1 = some (.ok bytes) ↔
      a.Covers length (max settings.align 8) settings.permanentSize ∧
        bytes = List.replicate length 0

theorem offers_of_create (hcreate : create settings = .ok start) (hsound : settings.InOrder) :
    start.Offers settings := by
  have hsettings := (limited_of_create hcreate).settings_eq
  constructor
  · exact congrArg Settings.size hsettings
  · exact congrArg Settings.wordSize hsettings
  · intro readOnly
    exact (begin_of_create hcreate readOnly).1
  · intro readOnly k hk hword
    apply (read_of_create hcreate readOnly _ _ _).2
    have hspan := hsound.permanentSize_le
    unfold maxSegmentBytes at hspan
    obtain ⟨hslot, hoffset⟩ := Address.parts_of_inside (i := Region.permanentSlot) (by decide)
      (Nat.lt_of_lt_of_le hk hspan)
    -- There is room for one more word below the next multiple.
    have hmultiple : settings.wordSize ∣ k := hword
    obtain ⟨j, hj⟩ := hmultiple
    obtain ⟨words, hwords⟩ : settings.wordSize ∣ settings.permanentSize := Nat.dvd_mul_left ..
    have hnext : settings.wordSize * (j + 1) ≤ settings.wordSize * words := by
      apply Nat.mul_le_mul_left
      rw [hj, hwords] at hk
      exact Nat.lt_of_mul_lt_mul_left hk
    refine ⟨?_, rfl⟩
    constructor
    · exact hslot
    · rw [Region.start, hoffset]
      exact hword
    · exact Nat.dvd_refl _
    · exact settings.wordSize_pos
    · rw [Region.start, hoffset, hj, hwords]
      exact hnext
  · intro readOnly a length bytes
    exact read_of_create hcreate readOnly a length bytes

/-! ## All settings -/

/-- What a creation with these settings comes to, and how it is calculated. -/
structure Creates (settings : Settings) : Prop where
  rejected : ∀ memory, create settings memory =
      .error (.invalidLayout settings.size settings.align) ↔
    (¬ ∃ k, settings.align = 2 ^ k) ∨ settings.size = 0 ∨ ¬ settings.align ∣ settings.size ∨
      2 ^ 40 < settings.size
  /-- The size of the permanent segment is the next multiple of the word. -/
  rounded : max settings.align 8 ∣ settings.permanentSize ∧
    settings.size ≤ settings.permanentSize ∧
    settings.permanentSize < settings.size + max settings.align 8
  scarce : settings.InOrder → ∀ memory, create settings memory = .error .outOfMemory ↔
    memory = false ∨ ∃ limit ∈ settings.memoryLimit, limit <
      2 * settings.permanentSize + settings.permanentSize / max settings.align 8 * 16
  offers : settings.InOrder → create settings ≠ .error .outOfMemory →
    ∃ start, create settings = .ok start ∧ start.Offers settings
  /-- In 64 bits, the creation gives the same, and nothing faults. -/
  calculated : ∀ memory, Region.create64 settings memory = some (Region.create settings memory)
  /-- So it is with every allocation in whatever state a run leads to, -/
  allocates : ∀ start operations, create settings = .ok start →
    ∀ (t : Transaction) size memory,
      t.alloc64 (start.run operations).2.region size memory =
        some (t.alloc (start.run operations).2.region size memory)
  /-- where the bytes in use are within the limit. -/
  limited : ∀ start operations, create settings = .ok start →
    (start.run operations).2.region.bytesInUse ≤ settings.byteLimit

theorem create_eq_error_iff (memory : Bool) (failure : Failure) :
    create settings memory = .error failure ↔ Region.create settings memory = .error failure := by
  unfold create
  cases Region.create settings memory with
  | error cause => simp [Except.map]
  | ok r => simp [Except.map]

/-- A creation admits the sound layouts that fit into the limit and no others,
    and neither it nor any later allocation needs more than 64 bits. -/
theorem creates_sound_layouts (settings : Settings)
    (hlimit : ∀ limit ∈ settings.memoryLimit, limit < UInt64.size) : Creates settings := by
  have hbyteLimit : settings.byteLimit < UInt64.size := by
    unfold Settings.byteLimit
    cases hmemory : settings.memoryLimit with
    | none => decide
    | some limit => exact hlimit limit hmemory
  have hscarce : settings.InOrder → ∀ memory, create settings memory = .error .outOfMemory ↔
      memory = false ∨ ∃ limit ∈ settings.memoryLimit, limit <
        footprint settings.permanentSize settings.wordSize := by
    intro hsound memory
    rw [create_eq_error_iff, Region.create_outOfMemory_iff hsound]
    exact or_congr_right (Region.byteLimit_lt_iff hsound)
  constructor
  · intro memory
    rw [create_eq_error_iff, ← Settings.not_inOrder_iff]
    constructor
    · intro hfailed hsound
      rw [Region.create_of_inOrder hsound] at hfailed
      split at hfailed
      · cases hfailed
      · cases hfailed
    · exact Region.create_of_not_inOrder
  · exact ⟨Nat.dvd_mul_left .., le_roundUp settings.wordSize_pos⟩
  · exact hscarce
  · intro hsound henough
    cases hcreate : create settings with
    | ok start => exact ⟨start, rfl, offers_of_create hcreate hsound⟩
    | error failure =>
      have hfailed := (create_eq_error_iff true failure).1 hcreate
      rw [Region.create_of_inOrder hsound] at hfailed
      split at hfailed
      · cases hfailed
        exact absurd hcreate henough
      · cases hfailed
  · exact Region.create64_eq hbyteLimit
  · intro start operations hcreate t size memory
    have hsettings := (limited_run hcreate operations).settings_eq
    apply t.alloc64_eq
    · rw [Region.wordSize, hsettings]
      exact settings.wordSize_pos
    · rw [hsettings]
      exact hbyteLimit
  · intro start operations hcreate
    exact (limited_run hcreate operations).limited

/-- Twelve bytes in words of four are rounded up to two words of eight. They take
    64 bytes, and one byte less is not enough. -/
theorem creates_sound_layouts_rounded :
    Creates { size := 12, align := 4, memoryLimit := some 64 } ∧
      Creates { size := 12, align := 4, memoryLimit := some 63 } ∧
      create { size := 12, align := 4, memoryLimit := some 63 } = .error .outOfMemory ∧
      ∃ start, create { size := 12, align := 4, memoryLimit := some 64 } = .ok start ∧
        ((start.begin false).2.read 0 (Region.start.advance 8) 8).1 =
          some (.ok (List.replicate 8 0)) ∧
        ((start.begin false).2.read 0 (Region.start.advance 16) 8).1 =
          some (.error (.misaligned (Region.start.advance 16) 8)) := by
  refine ⟨creates_sound_layouts _ ?_, creates_sound_layouts _ ?_, rfl, _, rfl, ?_, ?_⟩
  · rintro limit ⟨⟩
    decide
  · rintro limit ⟨⟩
    decide
  · decide +kernel
  · decide +kernel

end Session

end TransactionalMemory
