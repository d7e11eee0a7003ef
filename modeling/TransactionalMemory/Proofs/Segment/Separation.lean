import Mathlib.Algebra.Group.Nat.Defs
import TransactionalMemory.Proofs.Segment.Storage

/-! # Words do not overlap

    The words of a copy stand in one row of lanes, and a word takes as many
    neighbouring lanes as it is wide. Neither the width of words nor the number
    of them matters for the rules below:

    1. All lanes of a word lie inside the row, and hold the whole word.
    2. A store changes the lanes of its own word in its own copy, and nothing else.
    3. A load returns what was stored last in this word of this copy, and zeros
       as long as nothing was.

    They hold of a segment at any time, whatever was stored in it since it was
    made. -/

namespace TransactionalMemory

/-! ## Edits -/

/-- A change to one word of a segment. -/
inductive Edit where
  /-- Bytes are put into one copy of the word. -/
  | store (copy : Copy) (word : Nat) (bytes : List UInt8)
  | control (word : Nat) (control : Control)
  deriving DecidableEq

namespace Edit

def word : Edit → Nat
  | store _ w _ | control w _ => w

/-- The bytes that are put into word `w` of one copy. -/
def puts (c : Copy) (w : Nat) : Edit → Option (List UInt8)
  | store d v bytes => if d = c ∧ v = w then some bytes else none
  | control .. => none

/-- The segment has the word, and what is stored in it is one word long. -/
def Fits (s : Segment) : Edit → Prop
  | store _ w bytes => w < s.words ∧ bytes.length = s.wordSize
  | control w _ => w < s.words

/-- The bytes put last into word `w` of one copy. -/
def lastPut (c : Copy) (w : Nat) : List Edit → Option (List UInt8)
  | [] => none
  | edit :: rest => (lastPut c w rest).or (edit.puts c w)

instance (s : Segment) (edit : Edit) : Decidable (edit.Fits s) :=
  match edit with
  | store _ w bytes => inferInstanceAs (Decidable (w < s.words ∧ bytes.length = s.wordSize))
  | control w _ => inferInstanceAs (Decidable (w < s.words))

end Edit

namespace Segment

variable {s : Segment} {c d : Copy} {w v : Nat} {bytes : List UInt8}

def edit (s : Segment) : Edit → Segment
  | .store c w bytes => s.store c w bytes
  | .control w c => s.setControl w c

/-- The segment after the edits, the first one of the list first. -/
def edited (s : Segment) (edits : List Edit) : Segment := edits.foldl edit s

@[simp] theorem edited_nil (s : Segment) : s.edited [] = s := rfl

@[simp] theorem edited_cons (s : Segment) (e : Edit) (rest : List Edit) :
    s.edited (e :: rest) = (s.edit e).edited rest := rfl

@[simp] theorem words_edit (s : Segment) (e : Edit) : (s.edit e).words = s.words := by
  cases e with
  | store c w bytes => exact s.words_store c w bytes
  | control w c => exact s.words_setControl w c

@[simp] theorem wordSize_edit (s : Segment) (e : Edit) : (s.edit e).wordSize = s.wordSize := by
  cases e with
  | store c w bytes => simp [edit, store]
  | control w c => rfl

theorem Shaped.edit (h : s.Shaped) (e : Edit) : (s.edit e).Shaped := by
  cases e with
  | store c w bytes => exact h.store c w bytes
  | control w c => exact h.setControl w c

/-! ## Lanes -/

/-- A word takes as many lanes as it needs for its bytes. -/
theorem Shaped.lanesPerWord_mul (h : s.Shaped) : s.lanesPerWord * laneBytes = s.wordSize :=
  Nat.div_mul_cancel h.lanes

/-- A store leaves every lane that is not one of its word in its copy. -/
theorem getElem?_lanes_store (s : Segment) (bytes : List UInt8) {i : Nat}
    (h : ¬ (d = c ∧ s.firstLane w ≤ i ∧ i < s.firstLane w + s.lanesPerWord)) :
    ((s.store c w bytes).lanes d)[i]? = (s.lanes d)[i]? := by
  by_cases hdc : d = c
  · subst hdc
    have hshort : ((Lane.ofBytes bytes).take s.lanesPerWord).length ≤ s.lanesPerWord :=
      List.length_take_le ..
    have hapart : ¬ (s.firstLane w ≤ i ∧ i < s.firstLane w + s.lanesPerWord) := by
      intro hin
      exact h ⟨rfl, hin⟩
    rw [store, lanes_updateLanes_self]
    apply Lane.getElem?_overwrite_of_outside
    omega
  · have hother : (s.store c w bytes).lanes d = s.lanes d :=
      lanes_updateLanes_ne s _ (Ne.symm hdc)
    rw [hother]

/-! ## Loads -/

/-- An edit puts its bytes into its own word and copy, and nothing anywhere else. -/
theorem load_edit (hs : s.Shaped) {e : Edit} (he : e.Fits s) (c : Copy) (w : Nat) :
    (s.edit e).load c w = (e.puts c w).getD (s.load c w) := by
  cases e with
  | control v control => exact s.load_setControl v w control c
  | store d v bytes =>
    obtain ⟨hv, hlen⟩ := he
    by_cases hsame : d = c ∧ v = w
    · obtain ⟨rfl, rfl⟩ := hsame
      have hput : (Edit.store d v bytes).puts d v = some bytes := if_pos ⟨rfl, rfl⟩
      rw [hput]
      exact load_store_self hs d hv hlen
    · have hput : (Edit.store d v bytes).puts c w = none := if_neg hsame
      rw [hput]
      by_cases hcopy : d = c
      · have hword : v ≠ w := fun heq => hsame ⟨hcopy, heq⟩
        exact load_store_of_word_ne s d c hword bytes
      · exact load_store_of_copy_ne s hcopy v w bytes

/-- After any edits, a load returns what was put last into this word of this copy. -/
theorem load_edited (hs : s.Shaped) {edits : List Edit} (hfits : ∀ e ∈ edits, e.Fits s)
    (c : Copy) (w : Nat) :
    (s.edited edits).load c w = (Edit.lastPut c w edits).getD (s.load c w) := by
  induction edits generalizing s with
  | nil => rfl
  | cons e rest ih =>
    have hfirst := hfits e List.mem_cons_self
    have hrest : ∀ e' ∈ rest, e'.Fits (s.edit e) := by
      intro e' hmem
      have hfit := hfits e' (List.mem_cons_of_mem e hmem)
      cases e' <;> simpa only [Edit.Fits, words_edit, wordSize_edit] using hfit
    rw [edited_cons, ih (hs.edit e) hrest, load_edit hs hfirst, Edit.lastPut]
    cases Edit.lastPut c w rest <;> rfl

/-! ## Segments at any time -/

/-- In a segment for `size` bytes in words of `wordSize` bytes, every word has
    lanes of its own. -/
structure Separated (s : Segment) (size wordSize : Nat) : Prop where
  words : s.words = size / wordSize
  /-- The lanes of a word have room for it, and lie inside the rows. -/
  whole : s.lanesPerWord * laneBytes = wordSize
  inside : ∀ c w i, w < s.words → i < s.lanesPerWord → s.firstLane w + i < (s.lanes c).size
  /-- A word is loaded as it was stored. -/
  loaded : ∀ c w bytes, w < s.words → bytes.length = wordSize →
    (s.store c w bytes).load c w = bytes
  /-- What is stored goes nowhere else. -/
  otherCopy : ∀ c d w v bytes, d ≠ c → (s.store c w bytes).load d v = s.load d v
  otherWords : ∀ c d w v bytes, v ≠ w → (s.store c w bytes).load d v = s.load d v
  otherLanes : ∀ c d w bytes i,
    ¬ (d = c ∧ s.firstLane w ≤ i ∧ i < s.firstLane w + s.lanesPerWord) →
      ((s.store c w bytes).lanes d)[i]? = (s.lanes d)[i]?
  controls : ∀ c w bytes, (s.store c w bytes).controls = s.controls

/-- As long as the rows are as long as they should be, words are separated. -/
theorem Shaped.separated (h : s.Shaped) : s.Separated s.size s.wordSize := by
  constructor
  · exact h.controls
  · exact h.lanesPerWord_mul
  · intro c w i hw hi
    have hrow := h.firstLane_add_le hw c
    omega
  · intro c w bytes hw hlen
    exact load_store_self h c hw hlen
  · intro c d w v bytes hdc
    exact load_store_of_copy_ne s (Ne.symm hdc) w v bytes
  · intro c d w v bytes hvw
    exact load_store_of_word_ne s c d (Ne.symm hvw) bytes
  · intro c d w bytes i hi
    exact s.getElem?_lanes_store bytes hi
  · intro c w bytes
    exact s.controls_updateLanes c _

theorem size_edited (s : Segment) (edits : List Edit) :
    (s.edited edits).size = s.size ∧ (s.edited edits).wordSize = s.wordSize := by
  induction edits generalizing s with
  | nil => exact ⟨rfl, rfl⟩
  | cons e rest ih =>
    have hsize : (s.edit e).size = s.size := by
      cases e with
      | store c w bytes => simp [edit, store]
      | control w c => rfl
    rw [edited_cons, (ih _).1, (ih _).2, hsize, wordSize_edit]
    exact ⟨rfl, rfl⟩

theorem Shaped.edited (h : s.Shaped) (edits : List Edit) : (s.edited edits).Shaped := by
  induction edits generalizing s with
  | nil => exact h
  | cons e rest ih => exact ih (h.edit e)

/-- A power of two that is no narrower than a lane is a whole number of lanes. -/
theorem laneBytes_dvd_of_power {wordSize k : Nat} (hpower : wordSize = 2 ^ k)
    (hwide : laneBytes ≤ wordSize) : laneBytes ∣ wordSize := by
  have hlane : laneBytes = 2 ^ 3 := rfl
  rw [hlane, hpower] at hwide ⊢
  exact Nat.pow_dvd_pow 2 ((Nat.pow_le_pow_iff_right (by omega)).1 hwide)

/-- A segment that was made for whole words whose width is a power of two keeps
    them apart at any time. A word holds in each copy what was put last into it
    there, and at first zeros. -/
theorem words_separate {slot size wordSize k : Nat} {memory : Bool} {fresh : Segment}
    (hpower : wordSize = 2 ^ k) (hwide : laneBytes ≤ wordSize) (hwhole : wordSize ∣ size)
    (hfresh : create? slot size wordSize memory = some fresh) {edits : List Edit}
    (hfits : ∀ e ∈ edits, e.Fits fresh) :
    (∀ c, ∀ w < size / wordSize, fresh.load c w = List.replicate wordSize 0) ∧
    (fresh.edited edits).Separated size wordSize ∧
    ∀ c, ∀ w < size / wordSize, (fresh.edited edits).load c w =
      (Edit.lastPut c w edits).getD (List.replicate wordSize 0) := by
  have hlanes := laneBytes_dvd_of_power hpower hwide
  have hpositive : 0 < wordSize := Nat.lt_of_lt_of_le (by decide) hwide
  have hzeroed : fresh = zeroed slot size wordSize := by
    unfold create? at hfresh
    split at hfresh
    · exact (Option.some.inj hfresh).symm
    · cases hfresh
  have hshaped : fresh.Shaped := by
    rw [hzeroed]
    exact shaped_zeroed slot hpositive hlanes hwhole
  have hsize : fresh.size = size ∧ fresh.wordSize = wordSize := by
    rw [hzeroed]
    exact ⟨rfl, rfl⟩
  have hzeros : ∀ c, ∀ w < size / wordSize, fresh.load c w = List.replicate wordSize 0 := by
    intro c w hw
    rw [hzeroed]
    exact load_zeroed slot hpositive hlanes hwhole c hw
  constructor
  · exact hzeros
  constructor
  · have hseparated := (hshaped.edited edits).separated
    rw [(fresh.size_edited edits).1, (fresh.size_edited edits).2, hsize.1, hsize.2] at hseparated
    exact hseparated
  · intro c w hw
    rw [load_edited hshaped hfits, hzeros c w hw]

/-- Two words of 16 bytes; the second one is stored in copy `b`, twice. -/
theorem words_separate_overwritten :
    ∃ fresh, create? 0 32 16 true = some fresh ∧
      (fresh.edited [.store .b 1 (List.replicate 16 7), .control 0 .untouched,
        .store .b 1 (List.replicate 16 9)]).Separated 32 16 ∧
      (fresh.edited [.store .b 1 (List.replicate 16 7), .control 0 .untouched,
        .store .b 1 (List.replicate 16 9)]).load .b 1 = List.replicate 16 9 ∧
      (fresh.edited [.store .b 1 (List.replicate 16 7), .control 0 .untouched,
        .store .b 1 (List.replicate 16 9)]).load .a 1 = List.replicate 16 0 := by
  have hmade : create? 0 32 16 true = some (zeroed 0 32 16) := rfl
  have hfits : ∀ e ∈ [Edit.store .b 1 (List.replicate 16 7), .control 0 .untouched,
      .store .b 1 (List.replicate 16 9)], e.Fits (zeroed 0 32 16) := by decide
  obtain ⟨-, hseparated, hloads⟩ := @words_separate 0 32 16 4 true _ rfl (by decide) (by decide)
    hmade _ hfits
  have hlast := hloads .b 1 (by decide)
  have hother := hloads .a 1 (by decide)
  exact ⟨_, hmade, hseparated, hlast, hother⟩

end Segment

end TransactionalMemory
