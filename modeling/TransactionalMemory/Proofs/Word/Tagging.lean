import Mathlib.Algebra.Group.Nat.Defs
import TransactionalMemory.TaggedPointer

/-! # Pairs in one word

    An alignment that is a power of two leaves the low bits of an aligned
    pointer free: the remainder of a word modulo the alignment are its low bits,
    and the rest are its high bits. So a mask takes a tagged pointer apart, and
    two masks put it together again. The facts below hold of every power of two,
    be it so small that no bit is free or so large that all of them are.

    1. A tagged pointer is a pair of an aligned pointer and a tag below the
       alignment, and every such pair is a tagged pointer.
    2. Exchanging the tag leaves the pointer as it is, and whether a tagged
       pointer is null depends on its pointer alone.
    3. A cell holds the pair that was put into it last, whatever was done with it
       since. An exchange compares pairs, and one that fails changes nothing. -/

namespace TransactionalMemory

/-! ## Masks -/

namespace Mask

def bit (n : UInt64) (i : Nat) : Bool := n.toBitVec.getLsbD i

variable {n m : UInt64} {i : Nat}

@[simp] theorem bit_and : bit (n &&& m) i = (bit n i && bit m i) := by
  simp only [bit, UInt64.toBitVec_and, BitVec.getLsbD_and]

@[simp] theorem bit_or : bit (n ||| m) i = (bit n i || bit m i) := by
  simp only [bit, UInt64.toBitVec_or, BitVec.getLsbD_or]

@[simp] theorem bit_not (hi : i < 64) : bit (~~~n) i = !bit n i := by
  simp only [bit, UInt64.toBitVec_not, BitVec.getLsbD_not, hi, decide_true, Bool.true_and]

@[simp] theorem bit_zero : bit 0 i = false := BitVec.getLsbD_zero

/-- Words that agree in every bit are equal. -/
theorem eq_of_bits (h : ∀ i < 64, bit n i = bit m i) : n = m :=
  UInt64.eq_of_toBitVec_eq (BitVec.eq_of_getLsbD_eq h)

/-- A word is the sum of its bits outside of a mask and those inside. -/
theorem outside_add_inside (n m : UInt64) :
    (n &&& ~~~m).toNat + (n &&& m).toNat = n.toNat := by
  have hapart : (n &&& ~~~m) &&& (n &&& m) = 0 := by
    refine eq_of_bits fun i hi => ?_
    cases hm : bit m i <;> simp [hi, hm]
  have hjoin : (n &&& ~~~m) ||| (n &&& m) = n := by
    refine eq_of_bits fun i hi => ?_
    cases hm : bit m i <;> simp [hi, hm]
  -- Without a common bit, adding is joining.
  have hbits : (n &&& ~~~m).toBitVec &&& (n &&& m).toBitVec = 0#64 :=
    congrArg UInt64.toBitVec hapart
  calc (n &&& ~~~m).toNat + (n &&& m).toNat
    _ = ((n &&& ~~~m).toBitVec + (n &&& m).toBitVec).toNat :=
      (BitVec.toNat_add_of_and_eq_zero hbits).symm
    _ = ((n &&& ~~~m) ||| (n &&& m)).toNat := by
      rw [BitVec.add_eq_or_of_and_eq_zero _ _ hbits, ← UInt64.toBitVec_or, UInt64.toNat_toBitVec]
    _ = n.toNat := by rw [hjoin]

/-- A word put together from the bits of one word outside of a mask and those of
    another inside has the outside of the first, -/
theorem outside_join (n t m : UInt64) :
    ((n &&& ~~~m) ||| (t &&& m)) &&& ~~~m = n &&& ~~~m := by
  refine eq_of_bits fun i hi => ?_
  cases hm : bit m i <;> simp [hi, hm]

/-- and the inside of the second. -/
theorem inside_join (n t m : UInt64) : ((n &&& ~~~m) ||| (t &&& m)) &&& m = t &&& m := by
  refine eq_of_bits fun i hi => ?_
  cases hm : bit m i <;> simp [hi, hm]

end Mask

/-- The bits that pointers to values aligned to `align` bytes leave free. -/
def lowBits (align : Nat) : UInt64 := UInt64.ofNat (align - 1)

variable {align k : Nat}

/-- For a power of two the low bits are the remainder. -/
theorem toNat_and_lowBits (hpower : align = 2 ^ k) (n : UInt64) :
    (n &&& lowBits align).toNat = n.toNat % align := by
  apply Nat.eq_of_testBit_eq
  intro i
  rw [hpower, lowBits, UInt64.toNat_and, UInt64.toNat_ofNat', Nat.testBit_and,
    Nat.testBit_mod_two_pow, Nat.testBit_mod_two_pow, Nat.testBit_two_pow_sub_one]
  by_cases hi : i < 64
  · simp [hi, Bool.and_comm]
  · -- The word has no such bit.
    have hword : n.toNat < 2 ^ i :=
      Nat.lt_of_lt_of_le n.toNat_lt (Nat.pow_le_pow_right (by decide) (by omega))
    simp [Nat.testBit_lt_two_pow hword]

/-! ## Pairs -/

namespace TaggedPointer

variable {p q : TaggedPointer align}

theorem tag_eq (hpower : align = 2 ^ k) (p : TaggedPointer align) :
    p.tag = (p.bits &&& lowBits align).toNat := (toNat_and_lowBits hpower p.bits).symm

theorem pointer_eq (hpower : align = 2 ^ k) (p : TaggedPointer align) :
    p.pointer = (p.bits &&& ~~~lowBits align).toNat := by
  -- Both the two parts and what the two masks select add up to the word.
  have hparts := p.pointer_add_tag
  have hbits := Mask.outside_add_inside p.bits (lowBits align)
  rw [tag_eq hpower] at hparts
  omega

theorem dvd_pointer (p : TaggedPointer align) : align ∣ p.pointer := Nat.dvd_sub_mod p.bits.toNat

theorem tag_lt (hpower : align = 2 ^ k) (p : TaggedPointer align) : p.tag < align := by
  apply Nat.mod_lt
  rw [hpower]
  exact Nat.two_pow_pos k

/-- A tag is exchanged by joining the high bits of the one word with the low bits of the other. -/
theorem bits_withTag (hpower : align = 2 ^ k) (p : TaggedPointer align) (t : UInt64) :
    (p.withTag t.toNat).bits = (p.bits &&& ~~~lowBits align) ||| (t &&& lowBits align) := by
  -- The sum of both parts, taken modulo the word, is the joined word itself.
  let joined := (p.bits &&& ~~~lowBits align) ||| (t &&& lowBits align)
  have hsum : p.pointer + t.toNat % align = joined.toNat :=
    calc p.pointer + t.toNat % align
      _ = (p.bits &&& ~~~lowBits align).toNat + (t &&& lowBits align).toNat := by
        rw [pointer_eq hpower, toNat_and_lowBits hpower]
      _ = (joined &&& ~~~lowBits align).toNat + (joined &&& lowBits align).toNat := by
        rw [Mask.outside_join, Mask.inside_join]
      _ = joined.toNat := Mask.outside_add_inside joined (lowBits align)
  show UInt64.ofNat (p.pointer + t.toNat % align) = joined
  rw [hsum, UInt64.ofNat_toNat]

theorem pointer_withTag (hpower : align = 2 ^ k) (p : TaggedPointer align) (t : UInt64) :
    (p.withTag t.toNat).pointer = p.pointer := by
  rw [pointer_eq hpower, bits_withTag hpower, Mask.outside_join, ← pointer_eq hpower]

theorem tag_withTag (hpower : align = 2 ^ k) (p : TaggedPointer align) (t : UInt64) :
    (p.withTag t.toNat).tag = t.toNat % align := by
  rw [tag_eq hpower, bits_withTag hpower, Mask.inside_join, toNat_and_lowBits hpower]

def ofParts (pointer tag : UInt64) : TaggedPointer align :=
  (ofPointer pointer.toNat).withTag tag.toNat

/-- An aligned pointer and a tag below the alignment are the parts of what is
    made of them. -/
theorem parts_ofParts (hpower : align = 2 ^ k) {pointer tag : UInt64}
    (haligned : align ∣ pointer.toNat) (hfits : tag.toNat < align) :
    (ofParts pointer tag : TaggedPointer align).pointer = pointer.toNat ∧
      (ofParts pointer tag : TaggedPointer align).tag = tag.toNat := by
  have hbits : (ofPointer pointer.toNat : TaggedPointer align).bits = pointer :=
    UInt64.ofNat_toNat
  have hpointer : (ofPointer pointer.toNat : TaggedPointer align).pointer = pointer.toNat := by
    rw [TaggedPointer.pointer, TaggedPointer.tag, hbits, Nat.mod_eq_zero_of_dvd haligned,
      Nat.sub_zero]
  constructor
  · rw [ofParts, pointer_withTag hpower, hpointer]
  · rw [ofParts, tag_withTag hpower, Nat.mod_eq_of_lt hfits]

theorem eq_iff_parts : p = q ↔ p.pointer = q.pointer ∧ p.tag = q.tag := by
  constructor
  · rintro rfl
    exact ⟨rfl, rfl⟩
  · rintro ⟨hpointer, htag⟩
    exact eq_of_parts hpointer htag

theorem isNull_iff : p.isNull = true ↔ p.pointer = 0 := beq_iff_eq

/-- A tagged pointer as a pair of its two parts. -/
structure IsPair (p : TaggedPointer align) : Prop where
  aligned : align ∣ p.pointer
  fits : p.tag < align
  /-- The pointer is in the high bits, and the tag in the low ones. -/
  high : p.pointer = (p.bits &&& ~~~lowBits align).toNat
  low : p.tag = (p.bits &&& lowBits align).toNat
  /-- Tagged pointers are equal if both parts are, and only then. -/
  equal : ∀ q, (p == q) = true ↔ p.pointer = q.pointer ∧ p.tag = q.tag
  /-- One part can be exchanged, and the other one stays. -/
  retagged : ∀ t : UInt64,
    (p.withTag t.toNat).pointer = p.pointer ∧ (p.withTag t.toNat).tag = t.toNat % align
  null : p.isNull = true ↔ p.pointer = 0
  /-- A tag does not make a pointer null, nor a null pointer any other. -/
  nullTagged : ∀ t : UInt64, (p.withTag t.toNat).isNull = p.isNull

theorem isPair (hpower : align = 2 ^ k) (p : TaggedPointer align) : p.IsPair where
  aligned := p.dvd_pointer
  fits := tag_lt hpower p
  high := pointer_eq hpower p
  low := tag_eq hpower p
  equal := fun _ => beq_iff_eq.trans eq_iff_parts
  retagged := fun t => ⟨pointer_withTag hpower p t, tag_withTag hpower p t⟩
  null := isNull_iff
  nullTagged := fun t => by rw [isNull, isNull, pointer_withTag hpower]

end TaggedPointer

/-! ## Cells -/

namespace PointerCell

inductive Request (align : Nat) where
  | load
  | store (new : TaggedPointer align)
  | swap (new : TaggedPointer align)
  | compareExchange (expected new : TaggedPointer align)
  | pointer
  deriving DecidableEq

/-- A request together with its answer. -/
inductive Event (align : Nat) where
  | loaded (found : TaggedPointer align)
  | stored (new : TaggedPointer align)
  | swapped (new found : TaggedPointer align)
  | exchanged (expected new found : TaggedPointer align)
  | refused (expected new found : TaggedPointer align)
  | pointed (pointer : Nat)
  deriving DecidableEq

/-- What an event puts into the cell. -/
def Event.put? : Event align → Option (TaggedPointer align)
  | stored new | swapped new _ | exchanged _ new _ => some new
  | loaded _ | refused .. | pointed _ => none

/-- What was put last into a cell that held `held` before the events, the first
    one of the list first. -/
def lastPut (held : TaggedPointer align) : List (Event align) → TaggedPointer align
  | [] => held
  | e :: rest => lastPut (e.put?.getD held) rest

def serve (c : PointerCell align) : Request align → Event align × PointerCell align
  | .load => (.loaded c.load, c)
  | .store new => (.stored new, c.store new)
  | .swap new => let (found, c) := c.swap new; (.swapped new found, c)
  | .compareExchange expected new =>
    match c.compareExchange expected new with
    | (.ok found, c) => (.exchanged expected new found, c)
    | (.error found, c) => (.refused expected new found, c)
  | .pointer => (.pointed c.pointer, c)

/-- The cell after some requests, the first one of the list first. -/
def after (c : PointerCell align) : List (Request align) → PointerCell align
  | [] => c
  | r :: rest => (c.serve r).2.after rest

/-- The requests together with their answers. -/
def events (c : PointerCell align) : List (Request align) → List (Event align)
  | [] => []
  | r :: rest => (c.serve r).1 :: (c.serve r).2.events rest

/-- A request changes what the cell holds only by putting something in. -/
theorem content_serve (c : PointerCell align) (r : Request align) :
    (c.serve r).2.content = (c.serve r).1.put?.getD c.content := by
  cases r with
  | load => rfl
  | store new => rfl
  | swap new => rfl
  | pointer => rfl
  | compareExchange expected new =>
    -- An exchange that fails puts nothing in.
    by_cases hfound : c.content = expected
    · simp [serve, compareExchange, hfound, Event.put?]
    · simp [serve, compareExchange, hfound, Event.put?]

/-- After any requests a cell holds what was put last. -/
theorem content_after (c : PointerCell align) (requests : List (Request align)) :
    (c.after requests).content = lastPut c.content (c.events requests) := by
  induction requests generalizing c with
  | nil => rfl
  | cons r rest ih =>
    rw [after, events, lastPut, ih, content_serve]

/-- A cell into which `held` was put last. -/
structure Holds (c : PointerCell align) (held : TaggedPointer align) : Prop where
  loads : c.load.pointer = held.pointer ∧ c.load.tag = held.tag
  /-- A swap returns both parts, and puts in what it is given. -/
  swaps : ∀ new, (c.swap new).1.pointer = held.pointer ∧ (c.swap new).1.tag = held.tag ∧
    (c.swap new).2.content = new
  stores : ∀ new, (c.store new).content = new
  /-- An exchange succeeds if both parts are as expected, -/
  exchanges : ∀ expected new, expected.pointer = held.pointer ∧ expected.tag = held.tag →
    ∃ found c', c.compareExchange expected new = (.ok found, c') ∧ c'.content = new ∧
      found.pointer = held.pointer ∧ found.tag = held.tag
  /-- and otherwise it leaves the cell as it is; the caller is told what was found. -/
  refuses : ∀ expected new, ¬ (expected.pointer = held.pointer ∧ expected.tag = held.tag) →
    ∃ found, c.compareExchange expected new = (.error found, c) ∧
      found.pointer = held.pointer ∧ found.tag = held.tag
  pointer : c.pointer = held.pointer

theorem holds_content (c : PointerCell align) : c.Holds c.content := by
  constructor
  case loads => exact ⟨rfl, rfl⟩
  case swaps =>
    intro new
    exact ⟨rfl, rfl, rfl⟩
  case stores =>
    intro new
    rfl
  case exchanges =>
    intro expected new hparts
    have hfound : c.content = expected := (TaggedPointer.eq_iff_parts.2 hparts).symm
    exact ⟨c.content, ⟨new⟩, if_pos hfound, rfl, rfl, rfl⟩
  case refuses =>
    intro expected new hparts
    have hother : ¬ c.content = expected := by
      intro hfound
      exact hparts (TaggedPointer.eq_iff_parts.1 hfound.symm)
    exact ⟨c.content, if_neg hother, rfl, rfl⟩
  case pointer => rfl

/-- For an alignment that is a power of two, tagged pointers are the pairs of an
    aligned pointer and a tag below the alignment, and a cell holds at any time
    the pair that was put into it last. -/
theorem run_holds_pairs (hpower : align = 2 ^ k) :
    (∀ p : TaggedPointer align, p.IsPair) ∧
    (∀ pointer tag : UInt64, align ∣ pointer.toNat → tag.toNat < align →
      (TaggedPointer.ofParts pointer tag : TaggedPointer align).pointer = pointer.toNat ∧
      (TaggedPointer.ofParts pointer tag : TaggedPointer align).tag = tag.toNat) ∧
    ∀ (c : PointerCell align) (requests : List (Request align)),
      (c.after requests).Holds (lastPut c.content (c.events requests)) := by
  refine ⟨TaggedPointer.isPair hpower, ?_, ?_⟩
  · intro pointer tag haligned hfits
    exact TaggedPointer.parts_ofParts hpower haligned hfits
  · intro c requests
    rw [← content_after]
    exact (c.after requests).holds_content

/-- Null with a tag of which one bit is too high. -/
def taggedNull : TaggedPointer 8 := TaggedPointer.null.withTag 9

/-- A tagged null is put in, and an exchange expects null without the tag. -/
def nullExpected : List (Request 8) :=
  [.store taggedNull, .compareExchange .null (.ofPointer 4096), .load]

/-- The tagged null is null, but it is another tagged pointer than null without
    a tag, so the exchange fails. -/
theorem run_holds_pairs_tagged_null :
    taggedNull.IsPair ∧ taggedNull.isNull = true ∧ taggedNull.tag = 1 ∧
      events ⟨.ofPointer 4096⟩ nullExpected = [.stored taggedNull,
        .refused .null (.ofPointer 4096) taggedNull, .loaded taggedNull] ∧
      Holds (after ⟨.ofPointer 4096⟩ nullExpected) taggedNull ∧
      (TaggedPointer.ofParts 4096 1 : TaggedPointer 8).pointer = 4096 := by
  obtain ⟨hpairs, hparts, hholds⟩ := @run_holds_pairs 8 3 rfl
  obtain ⟨hpointer, -⟩ := hparts 4096 1 (by decide) (by decide)
  have hlast := hholds ⟨.ofPointer 4096⟩ nullExpected
  exact ⟨hpairs taggedNull, by decide, by decide, by decide, hlast, hpointer⟩

/-- Without free bits there is one tag. -/
example : (TaggedPointer.null.withTag 1 : TaggedPointer 1) = .null := by decide

end PointerCell

end TransactionalMemory
