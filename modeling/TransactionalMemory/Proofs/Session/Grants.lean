import TransactionalMemory.Proofs.Session.Accounting
import TransactionalMemory.Proofs.Session.Dooming
import TransactionalMemory.Proofs.Session.FreeConflicts
import TransactionalMemory.Proofs.Transaction.Uncontested

/-! # Success, failure, and want of memory

    An operation succeeds and leaves its transaction undoomed, or it fails and
    the transaction is doomed afterwards. Only an allocation can come to
    something else: it is given nothing, and the transaction goes on as it was.

    A segment that was just allocated can be used from its first word to its
    last, and freed: its slot was vacant, and nobody else has left a mark in it. -/

namespace TransactionalMemory

/-- The operation has succeeded, and its transaction is not doomed. -/
structure Outcome.Succeeds {α : Type} (o : Outcome α) : Prop where
  value : ∃ v, o.value = .ok v
  undoomed : o.transaction.doomed = false

namespace Transaction

variable {t : Transaction} {r r' : Region} {a b : Address} {slot size : Nat}

/-! ## What an operation settles -/

theorem settles_ofPass {α : Type} (r : Region) (a : Address) (first : WordRef) {pass : Pass α}
    (hundoomed : pass.transaction.doomed = false) :
    (ofPass r a first pass).Succeeds ∨ (ofPass r a first pass).Fails := by
  unfold ofPass
  cases hvalue : pass.value with
  | ok v => exact .inl ⟨⟨v, rfl⟩, hundoomed⟩
  | error w => exact .inr (fails_fail ..)

theorem settles_read (t : Transaction) (r : Region) (a : Address) (length : Nat) :
    (t.read r a length).Succeeds ∨ (t.read r a length).Fails := by
  cases t.read_cases r a length with
  | refused doomed heq => rw [heq]; exact .inr (fails_refuse doomed)
  | failed undoomed why heq => rw [heq]; exact .inr (fails_fail ..)
  | shared undoomed readOnly resolved found heq => rw [heq]; exact .inl ⟨⟨_, rfl⟩, undoomed⟩
  | passed undoomed readWrite resolved found heq =>
    rw [heq]
    exact settles_ofPass _ _ _ (by rw [doomed_readWords, undoomed])

theorem settles_write (t : Transaction) (r : Region) (a : Address) (bytes : List UInt8) :
    (t.write r a bytes).Succeeds ∨ (t.write r a bytes).Fails := by
  cases t.write_cases r a bytes with
  | refused doomed heq => rw [heq]; exact .inr (fails_refuse doomed)
  | failed undoomed why heq => rw [heq]; exact .inr (fails_fail ..)
  | passed undoomed readWrite resolved found heq =>
    rw [heq]
    exact settles_ofPass _ _ _ (by rw [doomed_writeWords, undoomed])

theorem settles_free (t : Transaction) (r : Region) (a : Address) :
    (t.free r a).Succeeds ∨ (t.free r a).Fails := by
  cases t.free_cases r a with
  | refused doomed heq => rw [heq]; exact .inr (fails_refuse doomed)
  | failed undoomed why heq => rw [heq]; exact .inr (fails_fail ..)
  | marked undoomed readWrite freeable live heq => rw [heq]; exact .inl ⟨⟨_, rfl⟩, undoomed⟩

/-- What an allocation settles. -/
inductive AllocSettles (t : Transaction) (r : Region) (size : Nat) (memory : Bool) : Prop where
  | granted (succeeds : (t.alloc r size memory).Succeeds)
  /-- The transaction goes on as it was. -/
  | exhausted {r' : Region} (undoomed : t.doomed = false)
      (attempt : r.tryAllocate size memory = (none, r'))
      (outcome : t.alloc r size memory = ⟨.error .outOfMemory, t, r'⟩)
  | failed (fails : (t.alloc r size memory).Fails)
      (other : (t.alloc r size memory).value ≠ .error .outOfMemory)

theorem settles_alloc (t : Transaction) (r : Region) (size : Nat) (memory : Bool) :
    t.AllocSettles r size memory := by
  cases t.alloc_cases r size memory with
  | refused doomed heq =>
    refine .failed ?_ ?_
    · rw [heq]
      exact fails_refuse doomed
    · rw [heq]
      nofun
  | failed undoomed why heq =>
    refine .failed ?_ ?_
    · rw [heq]
      exact fails_fail ..
    · rw [heq]
      rcases why with ⟨-, rfl⟩ | ⟨-, -, rfl⟩
      · nofun
      · nofun
  | scarce undoomed readWrite attempt heq => exact .exhausted undoomed attempt heq
  | granted undoomed readWrite whole enough found heq =>
    refine .granted ?_
    rw [heq]
    exact ⟨⟨_, rfl⟩, undoomed⟩

/-- Whoever is granted a segment may write, and there was memory for it. -/
theorem mayWrite_of_alloc {memory : Bool} (halloc : (t.alloc r size memory).value = .ok a) :
    t.doomed = false ∧ t.isReadOnly = false ∧ memory = true := by
  cases t.alloc_cases r size memory with
  | refused doomed heq => rw [heq] at halloc; cases halloc
  | failed undoomed why heq => rw [heq] at halloc; cases halloc
  | scarce undoomed readWrite attempt heq => rw [heq] at halloc; cases halloc
  | granted undoomed readWrite whole enough found heq => exact ⟨undoomed, readWrite, enough⟩

/-! ## A segment that was just allocated -/

section

variable (hall : r.Allocates r' size slot) (hb : b.slot? = some slot) (hsized : r.Sized)
  (hshaped : r'.Shaped) (hwhole : r.wordSize ∣ size)

include hall hb in
/-- Every range of the new segment can be reached, by everybody. -/
theorem resolved_of_allocates (t : Transaction) {length : Nat}
    (hinside : inBounds r.wordSize size b.offset length = true) :
    t.Resolved r' b length slot ⟨r.segments.size, b.offset / r.wordSize⟩ where
  slot_eq := hb
  reached := by rw [reach, hall.self]
  word_eq := by rw [hall.wordSize_eq]
  inside := by
    rw [hall.segment?_eq, if_pos rfl, hall.wordSize_eq]
    exact hinside

include hsized hwhole in
/-- Nobody has left a mark in it. -/
theorem uncontested_zeroed (id : TransactionId) {w : Nat}
    (hw : w < (Segment.zeroed slot size r.wordSize).words) :
    ((Segment.zeroed slot size r.wordSize).cell w).Uncontested id := by
  rw [Segment.cell_zeroed slot hsized.positive hsized.lanes hwhole hw]
  exact ⟨nofun, fun hpending => absurd rfl hpending⟩

include hall hb hsized hshaped hwhole

theorem read_of_allocates (hundoomed : t.doomed = false) {length : Nat}
    (hinside : inBounds r.wordSize size b.offset length = true) :
    ∃ bytes, (t.read r' b length).value = .ok bytes := by
  have hresolved := resolved_of_allocates hall hb t hinside
  have hfound : r'.segment? r.segments.size = some (.zeroed slot size r.wordSize) := by
    rw [hall.segment?_eq, if_pos rfl]
  have hrange := (hresolved.range_le hshaped hfound).1
  obtain ⟨bytes, hbytes⟩ := readWords_of_uncontested r.segments.size (b.offset / r.wordSize)
    (length / r'.wordSize) hrange
    (fun w hw => uncontested_zeroed hsized hwhole t.id
      (Nat.lt_of_lt_of_le (List.mem_range'_1.1 hw).2 hrange)) #[]
  have hresolve := resolve_eq_ok_iff.2 ⟨slot, hresolved⟩
  by_cases hro : t.isReadOnly = true <;>
    simp [read, hundoomed, hresolve, hfound, hro, ofPass, hbytes]

theorem write_of_allocates (hundoomed : t.doomed = false) (hrw : t.isReadOnly = false)
    {bytes : List UInt8} (hinside : inBounds r.wordSize size b.offset bytes.length = true) :
    (t.write r' b bytes).value = .ok () := by
  have hresolved := resolved_of_allocates hall hb t hinside
  have hfound : r'.segment? r.segments.size = some (.zeroed slot size r.wordSize) := by
    rw [hall.segment?_eq, if_pos rfl]
  obtain ⟨hrange, hlength⟩ := hresolved.range_le hshaped hfound
  -- The pass cuts the bytes by the word size of the region, which is that of the segment.
  have hwordSize : (Segment.zeroed slot size r.wordSize).wordSize = r'.wordSize :=
    hall.wordSize_eq.symm
  have hbytes : bytes.length = bytes.length / r'.wordSize *
      (Segment.zeroed slot size r.wordSize).wordSize := by rw [hwordSize, hlength]
  have hvalue := writeWords_of_uncontested
    (Segment.shaped_zeroed slot hsized.positive hsized.lanes hwhole) r.segments.size
    (b.offset / r.wordSize) (bytes.length / r'.wordSize) hrange
    (fun w hw => uncontested_zeroed hsized hwhole t.id
      (Nat.lt_of_lt_of_le (List.mem_range'_1.1 hw).2 hrange)) hbytes
  rw [hwordSize] at hvalue
  have hresolve := resolve_eq_ok_iff.2 ⟨slot, hresolved⟩
  simp [write, hundoomed, hrw, hresolve, hfound, ofPass, hvalue]

omit hb hsized hshaped hwhole in
theorem free_of_allocates (hslot : slot ≠ Region.permanentSlot) (ha : a.slot? = some slot)
    (hoffset : a.offset = 0) (hundoomed : t.doomed = false) (hrw : t.isReadOnly = false) :
    (t.free r' a).value = .ok () := by
  simp [free, freeable?, hundoomed, hrw, ha, hslot, hoffset, hall.self]

end

end Transaction

namespace Session

variable {settings : Settings} {hist : History} {s : Session} {h : Handle} {a : Address}
  {size : Nat} {memory : Bool}

/-- The address that an allocation has stored is new, and all of its segment can
    be used: it reads as zeros, it can be written, and it can be freed. -/
structure Grants (s : Session) (h : Handle) (size : Nat) (memory : Bool) (a : Address) : Prop where
  enough : memory = true
  fresh : ∃ slot, a.slot? = some slot ∧ s.region.table.lookup slot = .vacant
  first : a.offset = 0
  reads : ∀ b length, b.slot? = a.slot? →
    Transaction.inBounds s.region.wordSize size b.offset length = true →
    ((s.alloc h size memory).2.read h b length).1 = some (.ok (List.replicate length 0))
  writes : ∀ b bytes, b.slot? = a.slot? →
    Transaction.inBounds s.region.wordSize size b.offset bytes.length = true →
    ((s.alloc h size memory).2.write h b bytes).1 = some (.ok ())
  frees : ((s.alloc h size memory).2.free h a).1 = some (.ok ())

theorem grants_of_alloc (hs : s.Sound) (hrep : Represents hist s) (hp : s.Permanent settings)
    (halloc : (s.alloc h size memory).1 = some (.ok a)) : s.Grants h size memory a := by
  obtain ⟨t, slot, r', ho, hwhole, rfl, hgranted, hafter⟩ := allocates_of_ok halloc
  have hall := Region.allocate?_spec hs.slotted hgranted
  have hshaped := hall.shaped hs.shaped hs.sized hwhole
  have hlt : slot < maxSegments := hall.slotted.lt_maxSegments (by rw [hall.self]; nofun)
  have hslot := Address.slot?_ofParts hlt
  -- It was granted, so the transaction may write.
  obtain ⟨hundoomed, hrw, henough⟩ : t.doomed = false ∧ t.isReadOnly = false ∧ memory = true := by
    rw [alloc, access_of_open _ ho] at halloc
    exact Transaction.mayWrite_of_alloc (Option.some.inj halloc)
  have ho' : (s.alloc h size memory).2.open? h =
      some { t with allocated := slot :: t.allocated } := by
    rw [hafter, open?_put_self ho]
  have hregion : (s.alloc h size memory).2.region = r' := by rw [hafter]; rfl
  have hoffset := Address.offset_ofParts hlt
  constructor
  case enough => exact henough
  case fresh => exact ⟨slot, hslot, hall.vacant⟩
  case first => exact hoffset
  case reads =>
    intro b length hb hin
    obtain ⟨bytes, hread⟩ := Transaction.read_of_allocates hall (hb.trans hslot) hs.sized hshaped
      hwhole (t := { t with allocated := slot :: t.allocated }) hundoomed hin
    -- The read succeeds, and what it returns is known of every read that does.
    have hok : ((s.alloc h size memory).2.read h b length).1 = some (.ok bytes) := by
      rw [read, access_of_open _ ho', hregion, hread]
    rw [hok, read_of_allocated hs hrep halloc hb hok]
  case writes =>
    intro b bytes hb hin
    have hwrite := Transaction.write_of_allocates hall (hb.trans hslot) hs.sized hshaped
      hwhole (t := { t with allocated := slot :: t.allocated }) hundoomed hrw hin
    rw [write, access_of_open _ ho', hregion, hwrite]
  case frees =>
    -- The permanent segment is live, and the slot was vacant.
    have hne : slot ≠ Region.permanentSlot := by
      rintro rfl
      cases hp.live.symm.trans hall.vacant
    have hfree := Transaction.free_of_allocates hall hne hslot hoffset
      (t := { t with allocated := slot :: t.allocated }) hundoomed hrw
    rw [free, access_of_open _ ho', hregion, hfree]

end Session

end TransactionalMemory
