import TransactionalMemory.Proofs.Session.Extents
import TransactionalMemory.Proofs.Session.Likeness
import TransactionalMemory.Proofs.Region.Standing

/-! # Allocation is all or nothing

    An allocation charges the bytes, reserves a slot number and makes the segment,
    and undoes the first steps when a later one fails. It fails for one of four
    reasons: the segment is too large for an address, the memory limit is reached,
    no slot number is left, or there is no memory for the buffers.

    When it fails, whatever comes later comes as it would have come without it,
    the slots of later allocations included. When it succeeds, there is a new
    segment of zeros in a slot that was vacant. None of its addresses is one of
    another segment, whether that is still in a slot or waits to be released, and
    nothing else has changed. -/

namespace TransactionalMemory

namespace Region

variable {r r' r₀ : Region} {i j m n size : Nat}

/-! ## A new segment -/

/-- Segment `m` is in slot `j`, or waits to be released from there. -/
def Places (r : Region) (j m : Nat) : Prop :=
  (r.table.lookup j).segment? = some m ∨
    ∃ x ∈ r.collector.waiting, x.slot = j ∧ x.segment = m

/-- The change from `r` to `r'` puts a new segment of `size` bytes into slot `i`. -/
structure Provides (r r' : Region) (size i : Nat) : Prop where
  vacant : r.table.lookup i = .vacant
  filled : r'.table.lookup i = .live r.segments.size
  address : (Address.ofParts i 0).slot? = some i ∧ (Address.ofParts i 0).offset = 0
  segment : ∃ seg, r'.segment? r.segments.size = some seg ∧ seg.size = size ∧
    seg.words = size / r.wordSize
  /-- Nobody has accessed its words, and both copies of them are zeros. -/
  untouched : ∀ w < size / r.wordSize, r'.stored? ⟨r.segments.size, w⟩ =
    some ⟨.untouched, fun _ => List.replicate r.wordSize 0⟩
  charged : r'.bytesInUse = r.bytesInUse + footprint size r.wordSize
  slots : ∀ j, j ≠ i → r'.table.lookup j = r.table.lookup j
  segments : ∀ m, m ≠ r.segments.size → r'.segment? m = r.segment? m
  rest : r' = { r with
    segments := r'.segments, table := r'.table, bytesInUse := r'.bytesInUse }
  /-- No byte of it has an address of another segment. -/
  apart : ∀ j m seg, r'.Places j m → m ≠ r.segments.size → r'.segment? m = some seg →
    ∀ x < size, ∀ y < seg.size, (Address.ofParts i 0).advance x ≠ (Address.ofParts j 0).advance y

/-- The slots of all segments have addresses, as far as slots agree. -/
theorem lt_maxSegments_of_places (hs : r.Slotted) (h : r.Places j m) : j < maxSegments := by
  rcases h with hheld | ⟨x, hx, rfl, -⟩
  · apply hs.lt_maxSegments
    intro hvacant
    rw [hvacant] at hheld
    cases hheld
  · exact Nat.lt_of_lt_of_le (hs.waitingOld x hx) hs.bounded

/-- Whatever is placed after an allocation is the new segment, or was placed
    before, in another slot. -/
theorem Allocates.places (h : r.Allocates r' size i) (hplaced : r'.Places j m) :
    (j = i ∧ m = r.segments.size) ∨ (j ≠ i ∧ r.Places j m) := by
  by_cases hj : j = i
  · left
    subst hj
    rcases hplaced with hheld | ⟨x, hx, hslot, -⟩
    · rw [h.self] at hheld
      cases hheld
      exact ⟨rfl, rfl⟩
    · rw [h.collector_eq] at hx
      exact absurd (hslot ▸ List.mem_map_of_mem hx) h.unawaited
  · right
    refine ⟨hj, ?_⟩
    unfold Places at hplaced ⊢
    rwa [h.others j hj, h.collector_eq] at hplaced

/-- The addresses of segments in different slots are different. -/
theorem advance_ofParts_ne (hi : i < maxSegments) (hj : j < maxSegments) (hne : j ≠ i) {x y : Nat}
    (hx : x < Address.offsetSpan) (hy : y < Address.offsetSpan) :
    (Address.ofParts i 0).advance x ≠ (Address.ofParts j 0).advance y := by
  have hslot : ∀ k z, k < maxSegments → z < Address.offsetSpan →
      ((Address.ofParts k 0).advance z).slot? = some k := by
    intro k z hk hz
    have hinside : (Address.ofParts k 0).offset + z < Address.offsetSpan := by
      rw [Address.offset_ofParts hk, Nat.zero_add]
      exact hz
    rw [(Address.advance_inside hinside).1, Address.slot?_ofParts hk]
  intro heq
  have hsame := congrArg Address.slot? heq
  rw [hslot i x hi hx, hslot j y hj hy] at hsame
  exact hne (Option.some.inj hsame).symm

/-- As far as slots agree, an allocation provides a new segment. -/
theorem provides_of_allocate? (hs : r.Slotted) (hsized : r.Sized) (hspanned : r.Spanned)
    (hwhole : r.wordSize ∣ size) (h : r.allocate? size = some (i, r')) :
    r.Provides r' size i := by
  have hall := allocate?_spec hs h
  have hspanned' := hspanned.allocate h
  have hnew : r'.segment? r.segments.size = some (.zeroed i size r.wordSize) := by
    rw [hall.segment?_eq, if_pos rfl]
  have hi : i < maxSegments := by
    apply hall.slotted.lt_maxSegments
    rw [hall.self]
    nofun
  obtain ⟨table, hreserve, hregion⟩ := allocate?_inv h
  constructor
  · exact hall.vacant
  · exact hall.self
  · exact ⟨Address.slot?_ofParts hi, Address.offset_ofParts hi⟩
  · exact ⟨_, hnew, rfl, by simp [Segment.words, Segment.zeroed]⟩
  · intro w hw
    have hlt : w < (Segment.zeroed i size r.wordSize).words := by
      simpa [Segment.words, Segment.zeroed] using hw
    have hload : ∀ c, (Segment.zeroed i size r.wordSize).load c w = List.replicate r.wordSize 0 :=
      fun c => Segment.load_zeroed i hsized.positive hsized.lanes hwhole c hw
    unfold stored?
    rw [hnew, Option.bind_some, if_pos hlt, Segment.stored, Segment.control_zeroed i hw]
    exact congrArg (fun bytes => some (Stored.mk .untouched bytes)) (funext hload)
  · rw [hregion]
  · exact hall.others
  · intro m hm
    rw [hall.segment?_eq, if_neg hm]
  · rw [hregion]
  · intro j m seg hplaced hm hseg x hx y hy
    -- The other segment was there before, in another slot.
    obtain ⟨hj, hbefore⟩ := (hall.places hplaced).resolve_left fun hsame => hm hsame.2
    have hlarge := (le_limits_of_allocate? h).2
    have hother := hspanned' m seg hseg
    unfold maxSegmentBytes at hlarge hother
    exact advance_ofParts_ne hi (lt_maxSegments_of_places hs hbefore) hj
      (Nat.lt_of_lt_of_le hx hlarge) (Nat.lt_of_lt_of_le hy hother)

/-- An attempt to allocate fails for one of four reasons, and for no other one. -/
theorem tryAllocate_eq_none_iff (r : Region) (size : Nat) (memory : Bool) :
    (r.tryAllocate size memory).1 = none ↔
      maxSegmentBytes < size ∨
      r.settings.byteLimit < r.bytesInUse + footprint size r.wordSize ∨
      (r.table.recycled = [] ∧ maxSegments ≤ r.table.next) ∨ memory = false := by
  have hnumbers : r.table.reserve? = none ↔ r.table.recycled = [] ∧ maxSegments ≤ r.table.next :=
    (SlotTable.reserve?_eq_none_iff r.table).trans (SlotTable.upcoming_eq_nil_iff r.table)
  rw [← hnumbers]
  cases r.attempt_cases size memory with
  | refused why heq =>
    rw [heq]
    refine ⟨fun _ => ?_, fun _ => rfl⟩
    rcases why with hspan | hcharge | hnone
    · exact .inl hspan
    · exact .inr (.inl hcharge)
    · exact .inr (.inr (.inl hnone))
  | undone nothing spans charged reserved heq =>
    rw [heq]
    exact ⟨fun _ => .inr (.inr (.inr nothing)), fun _ => rfl⟩
  | granted enough spans charged reserved heq =>
    rw [heq, enough, reserved]
    constructor
    · intro hnone
      cases hnone
    · rintro (hspan | hcharge | hnone | hfalse)
      · omega
      · omega
      · cases hnone
      · cases hfalse

end Region

namespace Session

variable {s s' start : Session} {h : Handle} {t : Transaction} {size : Nat} {memory : Bool}

/-! ## One allocation -/

/-- What an allocation by transaction `h` comes to. -/
structure AllOrNothing (s : Session) (h : Handle) (t : Transaction) (size : Nat) (memory : Bool)
    (result : Option (Except Failure Address) × Session) : Prop where
  answered : result.1 = some (.error .outOfMemory) ∨ ∃ a, result.1 = some (.ok a)
  fails_iff : result.1 = some (.error .outOfMemory) ↔
    maxSegmentBytes < size ∨
    s.region.settings.byteLimit < s.region.bytesInUse + footprint size s.region.wordSize ∨
    (s.region.table.recycled = [] ∧ maxSegments ≤ s.region.table.next) ∨ memory = false
  nothing : result.1 = some (.error .outOfMemory) → s.Indistinct result.2
  all : ∀ a, result.1 = some (.ok a) → ∃ i r', a = .ofParts i 0 ∧ s.region.Provides r' size i ∧
    result.2 = s.put h (some { t with allocated := i :: t.allocated }) r'

/-- As far as slots agree, an allocation is all or nothing. -/
theorem allOrNothing_alloc (hs : s.Sound) (hspanned : s.region.Spanned) (ho : s.open? h = some t)
    (hrw : t.isReadOnly = false) (hundoomed : t.doomed = false) (hpositive : 0 < size)
    (hwhole : s.region.wordSize ∣ size) (memory : Bool) :
    s.AllOrNothing h t size memory (s.alloc h size memory) := by
  have hlayout : ¬ (size = 0 ∨ size % s.region.wordSize ≠ 0) := by
    rintro (hzero | hpart)
    · omega
    · exact hpart (Nat.mod_eq_zero_of_dvd hwhole)
  have hreasons := s.region.tryAllocate_eq_none_iff size memory
  rw [alloc, access_of_open _ ho]
  cases t.alloc_cases s.region size memory with
  | refused doomed heq =>
    rw [hundoomed] at doomed
    cases doomed
  | failed undoomed why heq =>
    rcases why with ⟨hro, -⟩ | ⟨-, hbad, -⟩
    · rw [hrw] at hro
      cases hro
    · exact absurd hbad hlayout
  | @scarce r' undoomed readWrite attempt heq =>
    rw [heq]
    rw [attempt] at hreasons
    constructor
    · exact .inl rfl
    · exact ⟨fun _ => hreasons.1 rfl, fun _ => rfl⟩
    · intro _
      exact (Alike.of_attempt ho attempt).indistinct
    · rintro a ⟨⟩
  | @granted i r' undoomed readWrite whole enough found heq =>
    rw [heq]
    have hnever := Option.some_ne_none i
    rw [enough, Region.allocate?_eq_some_iff.1 found] at hreasons
    constructor
    · exact .inr ⟨_, rfl⟩
    · constructor
      · rintro ⟨⟩
      · intro hreason
        rw [enough] at hreason
        exact absurd (hreasons.2 hreason) hnever
    · rintro ⟨⟩
    · rintro a ⟨⟩
      exact ⟨i, r', rfl,
        Region.provides_of_allocate? hs.slotted hs.sized hspanned hwhole found, rfl⟩

/-! ## After a run -/

/-- After every orderly run, an allocation of whole words by an undoomed
    read-write transaction is all or nothing. -/
theorem run_provides {settings : Settings} (hcreate : create settings = .ok start)
    (operations : List Operation) (horderly : start.Orderly operations)
    (hs : (start.run operations).2 = s) (ho : s.open? h = some t) (hrw : t.isReadOnly = false)
    (hundoomed : t.doomed = false) (hpositive : 0 < size) (hwhole : s.region.wordSize ∣ size)
    (memory : Bool) : s.AllOrNothing h t size memory (s.alloc h size memory) := by
  have hrecorded := (Recorded.created hcreate).run operations horderly
  have hspanned := spanned_run hcreate operations
  rw [hs] at hrecorded hspanned
  exact allOrNothing_alloc hrecorded.sound hspanned ho hrw hundoomed hpositive hwhole memory

/-- An allocation has found no memory. The next one finds none either, but with
    memory it would have been given slot 1. -/
theorem run_provides_after_failure :
    ∃ start s t, create { size := 8, align := 8 } = .ok start ∧
      (start.run [.begin false, .alloc 0 8 false]).2 = s ∧ s.open? 0 = some t ∧
      s.AllOrNothing 0 t 16 false (s.alloc 0 16 false) ∧
      s.AllOrNothing 0 t 16 true (s.alloc 0 16 true) ∧
      (s.alloc 0 16 false).1 = some (.error .outOfMemory) ∧
      (s.alloc 0 16 true).1 = some (.ok (.ofParts 1 0)) := by
  refine ⟨_, _, _, rfl, rfl, rfl, ?_⟩
  have hall := @run_provides _ _ 0 _ 16 { size := 8, align := 8 } rfl
    [.begin false, .alloc 0 8 false] (by decide +kernel) rfl rfl rfl rfl
    (by decide) (by decide +kernel)
  exact ⟨hall false, hall true, by decide +kernel, by decide +kernel⟩

end Session

end TransactionalMemory
