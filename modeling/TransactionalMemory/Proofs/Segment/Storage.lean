import TransactionalMemory.Segment.Basic

/-! # Storage of words

    A word of a copy is a run of lanes of its own, so a word loaded after it
    was stored is what was stored, and storing a word changes no other word and
    nothing in the other copy.

    This needs a segment whose rows are as long as its size says; `Shaped`
    states that, and every fresh segment of whole words is so. -/

namespace TransactionalMemory

/-! ## Bytes and lanes -/

namespace Lane

/-- The lane that eight bytes fill has those bytes. -/
theorem encode_lane_of_length {bytes : List UInt8} (h : bytes.length = laneBytes) :
    LittleEndian.encode laneBytes (UInt64.ofNat (LittleEndian.decode bytes)).toNat = bytes := by
  have hlt : LittleEndian.decode bytes < UInt64.size := by
    have hspan := LittleEndian.decode_lt bytes
    rw [h] at hspan
    exact hspan
  rw [UInt64.toNat_ofNat_of_lt' hlt, ← h, LittleEndian.encode_decode]

/-- The bytes of the lanes that some bytes fill are those bytes, if none is left over. -/
theorem toBytes_ofBytes {bytes : List UInt8} (h : laneBytes ∣ bytes.length) :
    toBytes (ofBytes bytes) = bytes := by
  induction bytes using ofBytes.induct with
  | case1 b₀ b₁ b₂ b₃ b₄ b₅ b₆ b₇ rest ih =>
    have hrest : laneBytes ∣ rest.length := by
      unfold laneBytes at h ⊢
      simp only [List.length_cons] at h
      omega
    have hlane := @encode_lane_of_length [b₀, b₁, b₂, b₃, b₄, b₅, b₆, b₇] rfl
    rw [ofBytes, toBytes_cons, hlane, ih hrest]
    rfl
  | case2 bytes hshort =>
    rcases bytes with _ | ⟨b₀, _ | ⟨b₁, _ | ⟨b₂, _ | ⟨b₃, _ | ⟨b₄, _ | ⟨b₅, _ | ⟨b₆, bytes⟩⟩⟩⟩⟩⟩⟩
    · rfl
    -- One to six bytes are not a multiple of eight.
    iterate 6 simp [laneBytes] at h
    rcases bytes with _ | ⟨b₇, rest⟩
    · simp [laneBytes] at h
    · exact absurd rfl (hshort b₀ b₁ b₂ b₃ b₄ b₅ b₆ b₇ rest)

@[simp] theorem length_toBytes (lanes : List Lane) :
    (toBytes lanes).length = lanes.length * laneBytes := by
  induction lanes with
  | nil => rfl
  | cons lane rest ih =>
    rw [toBytes_cons, List.length_append, ih, LittleEndian.length_encode, List.length_cons,
      Nat.succ_mul, Nat.add_comm]

/-- As many lanes are filled as the bytes are long. -/
theorem length_ofBytes {bytes : List UInt8} (h : laneBytes ∣ bytes.length) :
    (ofBytes bytes).length = bytes.length / laneBytes := by
  have hlen := congrArg List.length (toBytes_ofBytes h)
  rw [length_toBytes] at hlen
  rw [← hlen, Nat.mul_div_cancel _ (by decide)]

/-- Lanes outside the part that is overwritten stay. -/
theorem getElem?_overwrite_of_outside (row : Array Lane) {first i : Nat} {lanes : List Lane}
    (h : i < first ∨ first + lanes.length ≤ i) : (overwrite row first lanes)[i]? = row[i]? := by
  induction lanes generalizing row first with
  | nil => rfl
  | cons lane rest ih =>
    rw [overwrite, ih _ (by simp only [List.length_cons] at h; omega)]
    exact Array.getElem?_setIfInBounds_ne (by simp only [List.length_cons] at h; omega)

/-- Lanes inside the part that is overwritten are the new ones. -/
theorem getElem?_overwrite_inside (row : Array Lane) {first k : Nat} {lanes : List Lane}
    (hk : k < lanes.length) (hrow : first + lanes.length ≤ row.size) :
    (overwrite row first lanes)[first + k]? = lanes[k]? := by
  induction lanes generalizing row first k with
  | nil => cases hk
  | cons lane rest ih =>
    simp only [List.length_cons] at hk hrow
    rw [overwrite]
    cases k with
    | zero =>
      rw [getElem?_overwrite_of_outside _ (by omega)]
      simp [show first < row.size by omega]
    | succ k =>
      rw [show first + (k + 1) = first + 1 + k by omega,
        ih (row.setIfInBounds first lane) (by omega) (by rw [Array.size_setIfInBounds]; omega)]
      rfl

end Lane

namespace Segment

/-! ## Shape -/

/-- The rows of the segment are as long as its size in whole words says. -/
structure Shaped (s : Segment) : Prop where
  pos : 0 < s.wordSize
  lanes : laneBytes ∣ s.wordSize
  whole : s.wordSize ∣ s.size
  controls : s.controls.size = s.size / s.wordSize
  copies : ∀ c, (s.lanes c).size = s.size / laneBytes

theorem shaped_zeroed (slot : Nat) {size wordSize : Nat} (hpos : 0 < wordSize)
    (hlanes : laneBytes ∣ wordSize) (hwhole : wordSize ∣ size) :
    (zeroed slot size wordSize).Shaped where
  pos := hpos
  lanes := hlanes
  whole := hwhole
  controls := by simp [zeroed]
  copies := by intro c; cases c <;> simp [zeroed, Segment.lanes]

theorem Shaped.setControl {s : Segment} (h : s.Shaped) (w : Nat) (c : Control) :
    (s.setControl w c).Shaped where
  pos := h.pos
  lanes := h.lanes
  whole := h.whole
  controls := by
    show (s.controls.setIfInBounds w c.pack).size = s.size / s.wordSize
    rw [Array.size_setIfInBounds, h.controls]
  copies := by intro d; rw [lanes_setControl]; exact h.copies d

@[simp] theorem size_updateLanes (s : Segment) (c : Copy) (change : Array Lane → Array Lane) :
    (s.updateLanes c change).size = s.size := by cases c <;> rfl

@[simp] theorem wordSize_updateLanes (s : Segment) (c : Copy)
    (change : Array Lane → Array Lane) : (s.updateLanes c change).wordSize = s.wordSize := by
  cases c <;> rfl

@[simp] theorem slot_updateLanes (s : Segment) (c : Copy) (change : Array Lane → Array Lane) :
    (s.updateLanes c change).slot = s.slot := by cases c <;> rfl

theorem Shaped.store {s : Segment} (h : s.Shaped) (c : Copy) (w : Nat) (bytes : List UInt8) :
    (s.store c w bytes).Shaped := by
  constructor
  · simpa [Segment.store] using h.pos
  · simpa [Segment.store] using h.lanes
  · simpa [Segment.store] using h.whole
  · simpa [Segment.store] using h.controls
  · intro d
    by_cases hcd : c = d
    · subst hcd
      simpa [Segment.store] using h.copies c
    · simpa [Segment.store, lanes_updateLanes_ne s _ hcd] using h.copies d

/-- The lanes of a word lie inside either row. -/
theorem Shaped.firstLane_add_le {s : Segment} (h : s.Shaped) {w : Nat} (hw : w < s.words)
    (c : Copy) : s.firstLane w + s.lanesPerWord ≤ (s.lanes c).size := by
  obtain ⟨k, hk⟩ := h.lanes
  obtain ⟨m, hm⟩ := h.whole
  have hlanes : 0 < laneBytes := by decide
  have hper : s.lanesPerWord = k := by
    rw [lanesPerWord, hk, Nat.mul_div_cancel_left _ hlanes]
  have hwords : w < m := by
    rw [words, h.controls, hm, Nat.mul_div_cancel_left _ h.pos] at hw
    exact hw
  rw [h.copies c, firstLane, hper, hm, hk, Nat.mul_assoc, Nat.mul_div_cancel_left _ hlanes,
    ← Nat.succ_mul, Nat.mul_comm k m]
  exact Nat.mul_le_mul_right k hwords

/-- The bytes of a word are as many as a word has. -/
theorem Shaped.length_load {s : Segment} (h : s.Shaped) (c : Copy) {w : Nat} (hw : w < s.words) :
    (s.load c w).length = s.wordSize := by
  have hrow := h.firstLane_add_le hw c
  have hdiv : s.lanesPerWord * laneBytes = s.wordSize := Nat.div_mul_cancel h.lanes
  simp only [load, Lane.length_toBytes, Array.length_toList, Array.size_extract]
  rw [← hdiv]
  congr 1
  omega

/-! ## Storing and loading -/

@[simp] theorem firstLane_store (s : Segment) (c : Copy) (w v : Nat) (bytes : List UInt8) :
    (s.store c w bytes).firstLane v = s.firstLane v := by
  simp [store, firstLane, lanesPerWord]

@[simp] theorem lanesPerWord_store (s : Segment) (c : Copy) (w : Nat) (bytes : List UInt8) :
    (s.store c w bytes).lanesPerWord = s.lanesPerWord := by
  simp [store, lanesPerWord]

/-- A word loaded after it was stored is what was stored. -/
theorem load_store_self {s : Segment} (h : s.Shaped) (c : Copy) {w : Nat} (hw : w < s.words)
    {bytes : List UInt8} (hlen : bytes.length = s.wordSize) :
    (s.store c w bytes).load c w = bytes := by
  have hrow := h.firstLane_add_le hw c
  have hdvd : laneBytes ∣ bytes.length := by rw [hlen]; exact h.lanes
  have hcount : (Lane.ofBytes bytes).length = s.lanesPerWord := by
    rw [Lane.length_ofBytes hdvd, hlen]; rfl
  have htake : (Lane.ofBytes bytes).take s.lanesPerWord = Lane.ofBytes bytes :=
    List.take_of_length_le (by omega)
  have hlanes : (s.store c w bytes).lanes c
      = Lane.overwrite (s.lanes c) (s.firstLane w) (Lane.ofBytes bytes) := by
    rw [store, lanes_updateLanes_self, htake]
  have hextract : (((s.store c w bytes).lanes c).extract (s.firstLane w)
      (s.firstLane w + s.lanesPerWord)).toList = Lane.ofBytes bytes := by
    -- Lane by lane: the first lanes are those that were written, and there are no more.
    apply List.ext_getElem?
    intro k
    rw [hlanes, Array.getElem?_toList, Array.getElem?_extract]
    by_cases hk : k < (Lane.ofBytes bytes).length
    · rw [if_pos (by rw [Lane.size_overwrite]; omega),
        Lane.getElem?_overwrite_inside _ hk (by omega)]
    · rw [if_neg (by rw [Lane.size_overwrite]; omega), List.getElem?_eq_none (by omega)]
  show Lane.toBytes (((s.store c w bytes).lanes c).extract ((s.store c w bytes).firstLane w)
    ((s.store c w bytes).firstLane w + (s.store c w bytes).lanesPerWord)).toList = bytes
  rw [firstLane_store, lanesPerWord_store, hextract, Lane.toBytes_ofBytes hdvd]

/-- Storing into one copy leaves the other as it was. -/
theorem load_store_of_copy_ne (s : Segment) {c d : Copy} (hcd : c ≠ d) (w v : Nat)
    (bytes : List UInt8) : (s.store c w bytes).load d v = s.load d v := by
  have hlanes : (s.store c w bytes).lanes d = s.lanes d := lanes_updateLanes_ne s _ hcd
  simp only [load, hlanes, firstLane_store, lanesPerWord_store]

/-- Storing a word leaves every other word as it was. -/
theorem load_store_of_word_ne (s : Segment) (c d : Copy) {w v : Nat} (hwv : w ≠ v)
    (bytes : List UInt8) : (s.store c w bytes).load d v = s.load d v := by
  by_cases hcd : c = d
  · subst hcd
    have hlanes : (s.store c w bytes).lanes c = Lane.overwrite (s.lanes c) (s.firstLane w)
        ((Lane.ofBytes bytes).take s.lanesPerWord) := lanes_updateLanes_self s c _
    -- The lanes of two different words do not overlap.
    have hapart : s.firstLane v + s.lanesPerWord ≤ s.firstLane w
        ∨ s.firstLane w + s.lanesPerWord ≤ s.firstLane v := by
      unfold firstLane
      rw [← Nat.succ_mul, ← Nat.succ_mul]
      rcases Nat.lt_or_gt_of_ne hwv with hlt | hlt
      · exact .inr (Nat.mul_le_mul_right _ hlt)
      · exact .inl (Nat.mul_le_mul_right _ hlt)
    have hshort : ((Lane.ofBytes bytes).take s.lanesPerWord).length ≤ s.lanesPerWord :=
      List.length_take_le ..
    simp only [load, hlanes, firstLane_store, lanesPerWord_store]
    congr 1
    apply List.ext_getElem?
    intro k
    rw [Array.getElem?_toList, Array.getElem?_toList, Array.getElem?_extract,
      Array.getElem?_extract, Lane.size_overwrite]
    split
    next hk => exact Lane.getElem?_overwrite_of_outside _ (by omega)
    next => rfl
  · exact load_store_of_copy_ne s hcd w v bytes

/-- A fresh segment holds zeros. -/
theorem load_zeroed (slot : Nat) {size wordSize : Nat} (hpos : 0 < wordSize)
    (hlanes : laneBytes ∣ wordSize) (hwhole : wordSize ∣ size) (c : Copy) {w : Nat}
    (hw : w < size / wordSize) :
    (zeroed slot size wordSize).load c w = List.replicate wordSize 0 := by
  have hshaped := shaped_zeroed slot hpos hlanes hwhole
  have hwords : w < (zeroed slot size wordSize).words := by simpa [words, zeroed] using hw
  have hlen := hshaped.length_load c hwords
  refine List.eq_replicate_iff.2 ⟨hlen, fun b hb => ?_⟩
  -- Every lane is zero, so every byte of a lane is.
  have hrow : (zeroed slot size wordSize).lanes c = Array.replicate (size / laneBytes) 0 := by
    cases c <;> rfl
  rw [load, Lane.toBytes, List.mem_flatMap] at hb
  obtain ⟨lane, hlane, hb⟩ := hb
  have hzero : lane = 0 := by
    rw [hrow, Array.mem_toList_iff, Array.mem_extract_iff_getElem] at hlane
    obtain ⟨k, hk, rfl⟩ := hlane
    exact Array.getElem_replicate ..
  subst hzero
  simpa [laneBytes, LittleEndian.encode] using hb

/-! ## Commit counts that fit -/

/-- The commit count of a stored control fits. -/
theorem seq_control_lt (s : Segment) (w : Nat) : (s.control w).seq < commitCounts := by
  have := (s.controls[w]?.getD default).state.toNat_lt
  simp only [control, Control.unpack, commitCounts]
  omega

/-- A control whose commit count fits is stored as it is. -/
theorem control_setControl_of_lt (s : Segment) {w : Nat} {c : Control} (hw : w < s.words)
    (hseq : c.seq < commitCounts) : (s.setControl w c).control w = c := by
  rw [control_setControl_self s c hw, Nat.mod_eq_of_lt hseq]

end Segment

end TransactionalMemory
