import Mathlib.Algebra.Group.Nat.Defs
import TransactionalMemory.Proofs.Session.Conflicts
import TransactionalMemory.Proofs.Session.Provision

/-! # Which ranges are accepted

    An address is any 64-bit word, and whoever has one may have computed it or
    read it from memory. It is split into a slot and an offset, and a range that
    begins there is accepted under five conditions:

    1. The slot holds a segment that the transaction may use.
    2. The offset is a number of whole words.
    3. The length is a number of whole words.
    4. The range is not empty.
    5. It ends inside the segment.

    The conditions on bytes become a bound on words, and the words of a segment
    have a control and lanes in both copies, so no access goes beyond a row. -/

namespace TransactionalMemory

namespace Address

/-- The upper 24 bits of an address are its slot, plus one. -/
theorem slot?_eq_some_iff {a : Address} {i : Nat} :
    a.slot? = some i ↔ a.bits.toNat / 2 ^ 40 = i + 1 := by
  have hspan : offsetSpan = 2 ^ 40 := by decide
  unfold slot?
  rw [hspan]
  split
  next hzero =>
    rw [hzero]
    exact ⟨nofun, fun hnext => absurd hnext (Nat.succ_ne_zero i).symm⟩
  next m hm => rw [hm, Option.some.injEq, Nat.succ.injEq]

/-- An address that names a slot is not null. -/
theorem isNull_of_slot? {a : Address} {i : Nat} (h : a.slot? = some i) : a.isNull = false := by
  have hupper := slot?_eq_some_iff.1 h
  apply Bool.eq_false_iff.2
  intro hnull
  have hzero : a.bits = 0 := beq_iff_eq.1 hnull
  rw [hzero] at hupper
  have hnone : (0 : UInt64).toNat / 2 ^ 40 = 0 := by decide
  omega

/-- Inside a segment of slot `i`, the address tells the offset. -/
theorem parts_of_inside {i k : Nat} (hi : i < maxSegments) (hk : k < offsetSpan) :
    ((ofParts i 0).advance k).slot? = some i ∧ ((ofParts i 0).advance k).offset = k := by
  have hstart := offset_ofParts hi
  have hinside : (ofParts i 0).offset + k < offsetSpan := by omega
  obtain ⟨hslot, hoffset⟩ := advance_inside hinside
  constructor
  · rw [hslot, slot?_ofParts hi]
  · rw [hoffset, hstart, Nat.zero_add]

end Address

/-- Word `w` of a segment has a control, and its lanes lie inside both copies. -/
structure Segment.HasWord (s : Segment) (w : Nat) : Prop where
  control : w < s.controls.size
  lanes : ∀ c, s.firstLane w + s.lanesPerWord ≤ (s.lanes c).size

namespace Transaction

variable {t : Transaction} {r : Region} {a : Address} {length slot n : Nat} {seg : Segment}

/-! ## Ranges that fit -/

/-- The transaction may use segment `n` if this is what its slot holds. -/
def MayUse (t : Transaction) (slot : Slot) (n : Nat) : Prop :=
  slot = .live n ∨ (t.isReadOnly = true ∧ (slot = .freeing n ∨ slot = .retired n))

/-- A transaction reaches what it may use. -/
theorem reach_eq_ok_iff : t.reach r a slot = .ok n ↔ t.MayUse (r.table.lookup slot) n := by
  unfold reach MayUse
  cases hro : t.isReadOnly <;> cases r.table.lookup slot <;> simp
  all_goals split <;> simp

/-- The range of `length` bytes at the address is one of whole words inside
    segment `n`, which its slot holds and the transaction may use. -/
structure Fits (t : Transaction) (r : Region) (a : Address) (length slot n : Nat)
    (seg : Segment) : Prop where
  named : a.bits.toNat / 2 ^ 40 = slot + 1
  mayUse : t.MayUse (r.table.lookup slot) n
  found : r.segment? n = some seg
  aligned : r.wordSize ∣ a.bits.toNat % 2 ^ 40
  whole : r.wordSize ∣ length
  positive : 0 < length
  within : a.bits.toNat % 2 ^ 40 + length ≤ seg.size

/-- A range inside a segment that is there fits if and only if it is resolved. -/
theorem fits_iff (hfound : r.segment? n = some seg) :
    t.Fits r a length slot n seg ↔ t.Resolved r a length slot ⟨n, a.offset / r.wordSize⟩ := by
  have hoffset : a.offset = a.bits.toNat % 2 ^ 40 := rfl
  have hinside : inBounds r.wordSize seg.size a.offset length = true ↔
      ((length ≠ 0 ∧ length % r.wordSize = 0) ∧ a.offset % r.wordSize = 0) ∧
        a.offset + length ≤ seg.size := by
    simp [inBounds]
  constructor
  · intro h
    constructor
    · exact Address.slot?_eq_some_iff.2 h.named
    · exact reach_eq_ok_iff.2 h.mayUse
    · rfl
    · rw [hfound, Option.elim_some, hinside, hoffset]
      exact ⟨⟨⟨Nat.ne_of_gt h.positive, Nat.mod_eq_zero_of_dvd h.whole⟩,
        Nat.mod_eq_zero_of_dvd h.aligned⟩, h.within⟩
  · intro h
    have hin := h.inside
    rw [hfound, Option.elim_some, hinside, hoffset] at hin
    obtain ⟨⟨⟨hpositive, hwhole⟩, haligned⟩, hwithin⟩ := hin
    constructor
    · exact Address.slot?_eq_some_iff.1 h.slot_eq
    · exact reach_eq_ok_iff.1 h.reached
    · exact hfound
    · exact Nat.dvd_of_mod_eq_zero haligned
    · exact Nat.dvd_of_mod_eq_zero hwhole
    · exact Nat.pos_of_ne_zero hpositive
    · exact hwithin

/-- What the transaction finds in word `w`: its own pending write, else what is
    committed. A read-only transaction has no writes of its own. -/
def finds (t : Transaction) (seg : Segment) (w : Nat) : List UInt8 :=
  if t.isReadOnly then seg.committedBytes w
  else ((seg.cell w).pendingOf t.id).getD (seg.committedBytes w)

/-- A read of an accepted range that succeeds returns what is found in its words. -/
theorem finds_of_read (hr : r.Shaped) {first : WordRef}
    (hresolved : t.Resolved r a length slot first) (hfound : r.segment? first.segment = some seg)
    {bytes : List UInt8} (hread : (t.read r a length).value = .ok bytes) :
    bytes = (List.range' first.word (length / r.wordSize)).flatMap (t.finds seg) := by
  obtain ⟨hrange, -⟩ := hresolved.range_le hr hfound
  have hresolve := resolve_eq_ok_iff.2 ⟨slot, hresolved⟩
  have hundoomed : t.doomed = false := by
    cases hdoomed : t.doomed with
    | false => rfl
    | true =>
      simp only [read, hdoomed, if_true, refuse] at hread
      cases hread
  simp only [read, hundoomed, hresolve, hfound, Bool.false_eq_true, if_false] at hread
  cases hro : t.isReadOnly with
  | true =>
    have hview : t.finds seg = seg.committedBytes := funext fun w => by simp [finds, hro]
    simp only [hro, if_true] at hread
    rw [hview]
    exact (Except.ok.inj hread).symm
  | false =>
    have hview : t.finds seg =
        fun w => ((seg.cell w).pendingOf t.id).getD (seg.committedBytes w) :=
      funext fun w => by simp [finds, hro]
    simp only [hro, Bool.false_eq_true, if_false, ofPass] at hread
    -- A pass that ends in conflict has failed.
    have hpass : (t.readWords seg first.segment first.word (length / r.wordSize) #[]).value
        = .ok bytes := by
      split at hread
      next value heq =>
        rw [heq]
        exact congrArg Except.ok (Except.ok.inj hread)
      next => cases hread
    rw [hview]
    simpa using readWords_value first.word _ hrange #[] hpass

end Transaction

namespace Region

variable {r : Region}

/-! ## Addresses of segments -/

/-- Every segment that a slot holds is there, and its bytes have addresses of their own. -/
structure Addressed (r : Region) : Prop where
  held : ∀ i n, (r.table.lookup i).segment? = some n → ∃ seg, r.segment? n = some seg ∧ seg.slot = i
  decodes : ∀ i n seg, (r.table.lookup i).segment? = some n → r.segment? n = some seg →
    ∀ k < seg.size, ((Address.ofParts i 0).advance k).slot? = some i ∧
      ((Address.ofParts i 0).advance k).offset = k ∧
      ((Address.ofParts i 0).advance k).isNull = false
  apart : ∀ i j n m seg seg', (r.table.lookup i).segment? = some n →
    (r.table.lookup j).segment? = some m → r.segment? n = some seg → r.segment? m = some seg' →
    n ≠ m → ∀ x < seg.size, ∀ y < seg'.size,
      (Address.ofParts i 0).advance x ≠ (Address.ofParts j 0).advance y

/-- As far as slots agree, a segment that a slot holds is there, and knows its slot. -/
theorem exists_of_held (hs : r.Slotted) {i n : Nat} (hn : (r.table.lookup i).segment? = some n) :
    ∃ seg, r.segment? n = some seg ∧ seg.slot = i := by
  have hslot : (r.segment? n).map Segment.slot = some i := hs.held i n hn
  exact Option.map_eq_some_iff.1 hslot

/-- Slots that agree, and segments that addresses span: then no address is lost. -/
theorem addressed_of_slotted (hs : r.Slotted) (hspanned : r.Spanned) : r.Addressed := by
  have hlimit : ∀ i n, (r.table.lookup i).segment? = some n → i < maxSegments := by
    intro i n hn
    exact lt_maxSegments_of_places hs (.inl hn)
  have hoffsets : ∀ n seg, r.segment? n = some seg → ∀ k < seg.size, k < Address.offsetSpan := by
    intro n seg hseg k hk
    have hsize := hspanned n seg hseg
    unfold maxSegmentBytes at hsize
    omega
  constructor
  · intro i n hn
    exact exists_of_held hs hn
  · intro i n seg hn hseg k hk
    obtain ⟨hslot, hoffset⟩ := Address.parts_of_inside (hlimit i n hn) (hoffsets n seg hseg k hk)
    exact ⟨hslot, hoffset, Address.isNull_of_slot? hslot⟩
  · intro i j n m seg seg' hn hm hseg hseg' hne x hx y hy
    -- A slot holds one segment, so the slots differ as well.
    have hslots : j ≠ i := by
      rintro rfl
      exact hne (Option.some.inj (hn.symm.trans hm))
    exact advance_ofParts_ne (hlimit i n hn) (hlimit j m hm) hslots (hoffsets n seg hseg x hx)
      (hoffsets m seg' hseg' y hy)

end Region

namespace Session

variable {s start : Session} {h : Handle} {t : Transaction} {a : Address} {length i n : Nat}
  {seg : Segment}

/-! ## Accesses -/

/-- What an access to a range that fits leads to. -/
structure LeadsTo (s : Session) (h : Handle) (t : Transaction) (a : Address) (length n : Nat)
    (seg : Segment) : Prop where
  resolved : t.resolve s.region a length = .ok ⟨n, a.offset / s.region.wordSize⟩
  /-- The words end where the bytes end. -/
  count : (a.offset + length) / s.region.wordSize =
    a.offset / s.region.wordSize + length / s.region.wordSize
  /-- None of the words is beyond the segment. -/
  words : ∀ w, w < (a.offset + length) / s.region.wordSize → w < seg.words ∧ seg.HasWord w
  /-- A read returns what is found in these words, -/
  returned : ∀ bytes, (s.read h a length).1 = some (.ok bytes) → bytes =
    (List.range' (a.offset / s.region.wordSize) (length / s.region.wordSize)).flatMap
      (t.finds seg)
  /-- and a read-only transaction always succeeds, and changes nothing. -/
  shared : t.isReadOnly = true → (∃ bytes, (s.read h a length).1 = some (.ok bytes)) ∧
    (s.read h a length).2 = s
  /-- Otherwise a read goes through these words and changes no others, -/
  read : t.isReadOnly = false → s.Accesses h t a ⟨n, a.offset / s.region.wordSize⟩ seg
    (length / s.region.wordSize) (·.WrittenByOther t.id) (fun _ x => x.readBy t.id)
    (s.read h a length)
  /-- and so does a write. -/
  written : t.isReadOnly = false → ∀ bytes, bytes.length = length →
    s.Accesses h t a ⟨n, a.offset / s.region.wordSize⟩ seg (length / s.region.wordSize)
      (·.HeldByOther t.id)
      (fun w x => x.writtenBy t.id
        (Transaction.part s.region.wordSize (a.offset / s.region.wordSize) bytes w))
      (s.write h a bytes)

/-- What comes of a range at any address. -/
structure Resolves (s : Session) (h : Handle) (t : Transaction) (a : Address) (length : Nat) :
    Prop where
  accepted_iff : (∃ first, t.resolve s.region a length = .ok first) ↔
    ∃ i n seg, t.Fits s.region a length i n seg
  leadsTo : ∀ i n seg, t.Fits s.region a length i n seg → s.LeadsTo h t a length n seg
  /-- A range that is not accepted is not accessed. -/
  rejected : ∀ failure, t.resolve s.region a length = .error failure →
    s.read h a length = (some (.error failure), s.put h (some t.doom) s.region) ∧
      (t.isReadOnly = false → ∀ bytes, bytes.length = length →
        s.write h a bytes = (some (.error failure), s.put h (some t.doom) s.region))

/-- A range that fits leads to its words. -/
theorem leadsTo_of_fits (hs : s.Sound) (hspanned : s.region.Spanned) (ho : s.open? h = some t)
    (hundoomed : t.doomed = false) (hfits : t.Fits s.region a length i n seg) :
    s.LeadsTo h t a length n seg := by
  have hfound := hfits.found
  have hresolved := (Transaction.fits_iff hfound).1 hfits
  have hresolve := Transaction.resolve_eq_ok_iff.2 ⟨i, hresolved⟩
  obtain ⟨hrange, -⟩ := hresolved.range_le hs.shaped hfound
  obtain ⟨hshaped, -⟩ := hs.shaped n seg hfound
  have hcount : (a.offset + length) / s.region.wordSize =
      a.offset / s.region.wordSize + length / s.region.wordSize := by
    have hpos := hs.sized.positive
    obtain ⟨k, hk⟩ : s.region.wordSize ∣ a.offset := hfits.aligned
    rw [hk, Nat.mul_add_div hpos, Nat.mul_div_cancel_left k hpos]
  constructor
  · exact hresolve
  · exact hcount
  · intro w hw
    have hlt : w < seg.words := by
      rw [hcount] at hw
      exact Nat.lt_of_lt_of_le hw hrange
    exact ⟨hlt, hlt, fun c => hshaped.firstLane_add_le hlt c⟩
  · intro bytes hread
    rw [read, access_of_open _ ho] at hread
    exact Transaction.finds_of_read hs.shaped hresolved hfound (Option.some.inj hread)
  · intro hro
    have hread : t.read s.region a length =
        ⟨.ok (Transaction.committedWords seg (a.offset / s.region.wordSize)
          (length / s.region.wordSize)), t, s.region⟩ := by
      simp [Transaction.read, hundoomed, hresolve, hfound, hro]
    rw [read, access_of_open _ ho, hread]
    exact ⟨⟨_, rfl⟩, put_self ho⟩
  · intro hrw
    exact accesses_read hs.toSteady hspanned ho hundoomed hrw hfound hresolved
  · intro hrw bytes hlength
    subst hlength
    exact accesses_write hs.toSteady hspanned ho hundoomed hrw hfound hresolved

/-- In a sound session, every range is accepted that fits, and no other one. -/
theorem resolves_of_sound (hs : s.Sound) (hspanned : s.region.Spanned) (ho : s.open? h = some t)
    (hundoomed : t.doomed = false) (a : Address) (length : Nat) : s.Resolves h t a length := by
  constructor
  · constructor
    · rintro ⟨first, hresolve⟩
      obtain ⟨i, hresolved⟩ := Transaction.resolve_eq_ok_iff.1 hresolve
      obtain ⟨seg, hfound, -⟩ := Region.exists_of_held hs.slotted hresolved.holds
      have hfirst : first = ⟨first.segment, a.offset / s.region.wordSize⟩ := by
        rw [← hresolved.word_eq]
      rw [hfirst] at hresolved
      exact ⟨i, first.segment, seg, (Transaction.fits_iff hfound).2 hresolved⟩
    · rintro ⟨i, n, seg, hfits⟩
      exact ⟨_, (leadsTo_of_fits hs hspanned ho hundoomed hfits).resolved⟩
  · intro i n seg hfits
    exact leadsTo_of_fits hs hspanned ho hundoomed hfits
  · intro failure hresolve
    constructor
    · rw [read, access_of_open _ ho]
      simp only [Transaction.read, hundoomed, hresolve, Bool.false_eq_true, if_false]
      rfl
    · intro hrw bytes hlength
      subst hlength
      rw [write, access_of_open _ ho]
      simp only [Transaction.write, hundoomed, hrw, hresolve, Bool.false_eq_true, if_false]
      rfl

/-! ## After a run -/

/-- After every orderly run, the ranges that an undoomed transaction may access
    are those of whole words inside one segment that it may use, and different
    segments have no address in common. -/
theorem run_resolves {settings : Settings} (hcreate : create settings = .ok start)
    {operations : List Operation} (horderly : start.Orderly operations)
    (hs : (start.run operations).2 = s) :
    (∀ h t, s.open? h = some t → t.doomed = false → ∀ a length, s.Resolves h t a length) ∧
      s.region.Addressed := by
  have hsound := ((Recorded.created hcreate).run operations horderly).sound
  have hspanned := spanned_run hcreate operations
  rw [hs] at hsound hspanned
  constructor
  · intro h t ho hundoomed a length
    exact resolves_of_sound hsound hspanned ho hundoomed a length
  · exact Region.addressed_of_slotted hsound.slotted hspanned

/-- Two words from the last word of a segment on are rejected, and the last word
    alone leads to word 2. -/
theorem run_resolves_last_word :
    ∃ start s t, create { size := 24, align := 8 } = .ok start ∧
      (start.run [.begin false]).2 = s ∧ s.open? 0 = some t ∧
      s.Resolves 0 t (Region.start.advance 16) 8 ∧ s.Resolves 0 t (Region.start.advance 16) 16 ∧
      t.resolve s.region (Region.start.advance 16) 8 = .ok ⟨0, 2⟩ ∧
      t.resolve s.region (Region.start.advance 16) 16 =
        .error (.misaligned (Region.start.advance 16) 16) := by
  refine ⟨_, _, _, rfl, rfl, rfl, ?_⟩
  obtain ⟨hall, -⟩ := @run_resolves _ _ { size := 24, align := 8 } rfl [.begin false]
    (by decide +kernel) rfl
  exact ⟨hall 0 _ rfl rfl _ 8, hall 0 _ rfl rfl _ 16, by decide +kernel, by decide +kernel⟩

end Session

end TransactionalMemory
