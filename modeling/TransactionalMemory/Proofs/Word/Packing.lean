import Mathlib.Algebra.Group.Nat.Defs
import TransactionalMemory.Proofs.Segment.Storage

/-! # Stored controls

    A control is stored in 128 bits. From the lowest bit on these are

    - 64 bits for the number of the accessor, zero for none;
    - 1 bit for the valid copy;
    - 1 bit for the pending write;
    - 62 bits for the commit count.

    Every pattern of 128 bits is the stored form of exactly one control whose
    commit count fits into its 62 bits, so comparing patterns is comparing
    controls. Commits count modulo `commitCounts`, which is even: the lowest bit
    of the count says which copy is valid, before and after the count wraps. -/

namespace TransactionalMemory

namespace Control

theorem commitCounts_eq : commitCounts = 2 ^ 62 := by decide

/-! ## 128 bits -/

namespace Packed

/-- The stored form as one number of 128 bits, the accessor in the lower half. -/
def bits (p : Packed) : BitVec 128 := p.state.toBitVec ++ p.accessor.toBitVec

def ofBits (b : BitVec 128) : Packed where
  accessor := .ofBitVec (b.extractLsb' 0 64)
  state := .ofBitVec (b.extractLsb' 64 64)

theorem toNat_bits (p : Packed) : p.bits.toNat = p.state.toNat * 2 ^ 64 + p.accessor.toNat := by
  have hlow : p.accessor.toBitVec.toNat < 2 ^ 64 := p.accessor.toBitVec.isLt
  rw [bits, BitVec.toNat_append, ← Nat.shiftLeft_add_eq_or_of_lt hlow, Nat.shiftLeft_eq,
    UInt64.toNat_toBitVec, UInt64.toNat_toBitVec]

theorem ofBits_bits (p : Packed) : ofBits p.bits = p := by
  have hlow := p.accessor.toNat_lt
  have hhigh := p.state.toNat_lt
  have haccessor : (ofBits p.bits).accessor = p.accessor := by
    apply UInt64.toNat.inj
    simp only [ofBits, UInt64.toNat_ofBitVec, BitVec.extractLsb'_toNat, toNat_bits]
    omega
  have hstate : (ofBits p.bits).state = p.state := by
    apply UInt64.toNat.inj
    simp only [ofBits, UInt64.toNat_ofBitVec, BitVec.extractLsb'_toNat, toNat_bits,
      Nat.shiftRight_eq_div_pow]
    omega
  cases p
  simp_all [ofBits]

theorem bits_ofBits (b : BitVec 128) : (ofBits b).bits = b := by
  have hlt := b.isLt
  apply BitVec.eq_of_toNat_eq
  rw [toNat_bits]
  simp only [ofBits, UInt64.toNat_ofBitVec, BitVec.extractLsb'_toNat, Nat.shiftRight_eq_div_pow]
  omega

end Packed

def accessorNumber (c : Control) : Nat := c.accessor.elim 0 TransactionId.val

/-- The bits in which a control is stored. -/
def toBits (c : Control) : BitVec 128 := c.pack.bits

def ofBits (b : BitVec 128) : Control := unpack (.ofBits b)

theorem accessorNumber_lt (c : Control) : c.accessorNumber < 2 ^ 64 := by
  unfold accessorNumber
  cases c.accessor with
  | none => decide
  | some id => exact id.lt

/-- Below the commit count there is one bit for each flag. -/
theorem flagBits_eq (c : Control) :
    c.flagBits = c.written.toNat * 2 + (c.valid == .b).toNat := by
  unfold flagBits
  cases c.written <;> cases c.valid <;> decide

theorem toNat_state_pack (c : Control) :
    c.pack.state.toNat =
      c.seq % commitCounts * 4 + c.written.toNat * 2 + (c.valid == .b).toNat := by
  have hwritten := c.written.toNat_lt
  have hvalid := (c.valid == .b).toNat_lt
  rw [commitCounts_eq, pack, UInt64.toNat_ofNat', flagBits_eq]
  omega

/-- The fields of a control, side by side. -/
theorem toBits_eq (c : Control) :
    c.toBits = BitVec.ofNat 62 c.seq ++ BitVec.ofBool c.written ++
      BitVec.ofBool (c.valid == .b) ++ BitVec.ofNat 64 c.accessorNumber := by
  have hlow := c.accessorNumber_lt
  have hwritten := c.written.toNat_lt
  have hvalid := (c.valid == .b).toNat_lt
  have haccessor : c.pack.accessor.toNat = c.accessorNumber := UInt64.toNat_ofNat_of_lt' hlow
  apply BitVec.eq_of_toNat_eq
  rw [toBits, Packed.toNat_bits, toNat_state_pack, haccessor, commitCounts_eq]
  simp only [BitVec.toNat_append, BitVec.toNat_ofNat, BitVec.toNat_ofBool]
  -- Each field is below the next one, so laying them over each other adds them.
  rw [← Nat.shiftLeft_add_eq_or_of_lt (by omega), ← Nat.shiftLeft_add_eq_or_of_lt (by omega),
    ← Nat.shiftLeft_add_eq_or_of_lt (by omega)]
  simp only [Nat.shiftLeft_eq]
  omega

/-- What is stored in the bits of a control, of any commit count. -/
theorem ofBits_toBits (c : Control) : ofBits c.toBits = { c with seq := c.seq % commitCounts } := by
  rw [ofBits, toBits, Packed.ofBits_bits, unpack_pack]

theorem toBits_ofBits (b : BitVec 128) : (ofBits b).toBits = b := by
  rw [ofBits, toBits, pack_unpack, Packed.bits_ofBits]

theorem seq_ofBits_lt (b : BitVec 128) : (ofBits b).seq < commitCounts := by
  have hlt := (Packed.ofBits b).state.toNat_lt
  rw [commitCounts_eq]
  simp only [ofBits, unpack]
  omega

/-! ## Comparing controls -/

/-- Two controls agree in what is stored of them. -/
structure Agrees (c d : Control) : Prop where
  valid : c.valid = d.valid
  written : c.written = d.written
  accessor : c.accessor = d.accessor
  seq : c.seq % commitCounts = d.seq % commitCounts

theorem pack_eq_iff {c d : Control} : c.pack = d.pack ↔ c.Agrees d := by
  constructor
  · intro h
    have hsame := congrArg unpack h
    rw [unpack_pack, unpack_pack] at hsame
    injection hsame with hvalid hwritten haccessor hseq
    exact ⟨hvalid, hwritten, haccessor, hseq⟩
  · intro h
    have hsame : unpack c.pack = unpack d.pack := by
      rw [unpack_pack, unpack_pack, h.valid, h.written, h.accessor, h.seq]
    rw [← pack_unpack c.pack, hsame, pack_unpack]

/-! ## Counting commits -/

inductive Transition where
  /-- A transaction becomes the accessor. -/
  | claim (id : TransactionId)
  /-- A transaction becomes the accessor, with a write pending. -/
  | write (id : TransactionId)
  /-- The pending write becomes the committed value. -/
  | commit
  /-- The pending write is given up. -/
  | release
  deriving DecidableEq

def Transition.apply (c : Control) : Transition → Control
  | claim id => c.claimedBy id
  | write id => c.writtenBy id
  | commit => c.committed
  | release => c.released

/-- The control counts `n` commits, and its valid copy has changed with each of them. -/
structure Counts (c : Control) (n : Nat) : Prop where
  seq : c.seq = n % commitCounts
  valid : c.valid = .b ↔ c.seq % 2 = 1

theorem Counts.seq_lt {c : Control} {n : Nat} (h : c.Counts n) : c.seq < commitCounts := by
  rw [h.seq, commitCounts_eq]
  omega

/-- Commits count, and no other change does. -/
theorem Counts.apply {c : Control} {n : Nat} (h : c.Counts n) (transition : Transition) :
    (transition.apply c).Counts (n + [transition].count .commit) := by
  have hseq := h.seq
  have hvalid := h.valid
  cases transition with
  | claim id => exact ⟨hseq, hvalid⟩
  | write id => exact ⟨hseq, hvalid⟩
  | release => exact ⟨hseq, hvalid⟩
  | commit =>
    have hnext : (Transition.commit.apply c).seq = (n + 1) % commitCounts := by
      show (c.seq + 1) % commitCounts = (n + 1) % commitCounts
      rw [hseq, commitCounts_eq]
      omega
    constructor
    · exact hnext
    · -- The number of counts is even, so the parity changes even when the count wraps.
      have hparity : (n + 1) % commitCounts % 2 = 1 ↔ c.seq % 2 = 0 := by
        rw [hseq, commitCounts_eq]
        omega
      have hother : (Transition.commit.apply c).valid = .b ↔ c.valid ≠ .b := by
        show c.valid.other = .b ↔ c.valid ≠ .b
        cases c.valid <;> decide
      rw [hnext, hparity, hother, Ne, hvalid]
      omega

theorem counts_untouched : untouched.Counts 0 := ⟨by decide, by decide⟩

end Control

namespace Segment

variable {s : Segment} {w v : Nat}

/-- The segment after one change of the control of word `w`, in its stored form. -/
def transit (s : Segment) (w : Nat) (transition : Control.Transition) : Segment :=
  s.setControl w (transition.apply (s.control w))

/-- The segment after the changes, the first one of the list first. -/
def transits (s : Segment) (w : Nat) (transitions : List Control.Transition) : Segment :=
  transitions.foldl (transit · w) s

/-- As long as commits are counted, nothing is lost when the control is stored. -/
theorem counts_transits {n : Nat} (hw : w < s.words) (h : (s.control w).Counts n)
    (transitions : List Control.Transition) :
    ((s.transits w transitions).control w).Counts (n + transitions.count .commit) ∧
      (s.transits w transitions).control w
        = transitions.foldl Control.Transition.apply (s.control w) := by
  induction transitions generalizing s n with
  | nil => exact ⟨h, rfl⟩
  | cons transition rest ih =>
    have hnext := h.apply transition
    have hstored : (s.transit w transition).control w = transition.apply (s.control w) :=
      control_setControl_of_lt s hw hnext.seq_lt
    have hwords : w < (s.transit w transition).words := by
      rw [transit, words_setControl]
      exact hw
    rw [← hstored] at hnext
    obtain ⟨hcounts, hcontrol⟩ := ih hwords hnext
    have hcount : (transition :: rest).count .commit
        = [transition].count .commit + rest.count .commit := by
      rw [← List.count_append, List.singleton_append]
    constructor
    · rw [hcount, ← Nat.add_assoc]
      exact hcounts
    · rw [List.foldl_cons, ← hstored]
      exact hcontrol

/-- What an exchange of the control of word `w` comes to. -/
structure Exchanges (s : Segment) (w : Nat) (expected new : Control) : Prop where
  /-- If the stored control agrees with the expected one, the new one is stored, -/
  succeeds : (s.control w).Agrees expected → ∃ s',
    s.exchangeControl w expected new = (.ok (s.control w), s') ∧
      s'.control w = { new with seq := new.seq % commitCounts } ∧
      (∀ v, v ≠ w → s'.control v = s.control v) ∧ ∀ c, s'.lanes c = s.lanes c
  /-- and otherwise the stored one is reported, and stays. -/
  fails : ¬ (s.control w).Agrees expected →
    s.exchangeControl w expected new = (.error (s.control w), s)

theorem exchanges (hw : w < s.words) (expected new : Control) : s.Exchanges w expected new := by
  constructor
  · intro hagrees
    have hpack := Control.pack_eq_iff.2 hagrees
    have hexchange : s.exchangeControl w expected new = (.ok (s.control w), s.setControl w new) :=
      if_pos hpack
    refine ⟨_, hexchange, s.control_setControl_self new hw, ?_, s.lanes_setControl w new⟩
    intro v hv
    exact s.control_setControl_ne new (Ne.symm hv)
  · intro hdiffers
    have hpack : ¬ (s.control w).pack = expected.pack := by
      intro hsame
      exact hdiffers (Control.pack_eq_iff.1 hsame)
    exact if_neg hpack

/-- Bits and controls whose commit count fits correspond to each other, field by
    field; an exchange compares what is stored; and a word that was untouched
    counts its commits modulo `2 ^ 62`, its second copy being valid after every
    odd one. -/
theorem controls_stored_faithfully (hw : w < s.words) :
    (∀ b, (Control.ofBits b).seq < 2 ^ 62 ∧ (Control.ofBits b).toBits = b) ∧
    (∀ c : Control, c.seq < 2 ^ 62 → Control.ofBits c.toBits = c) ∧
    (∀ c : Control, Control.ofBits c.toBits = { c with seq := c.seq % 2 ^ 62 }) ∧
    (∀ c : Control, c.toBits = BitVec.ofNat 62 c.seq ++ BitVec.ofBool c.written ++
      BitVec.ofBool (c.valid == .b) ++ BitVec.ofNat 64 (c.accessor.elim 0 TransactionId.val)) ∧
    (∀ expected new, s.Exchanges w expected new) ∧
    (s.control w = .untouched → ∀ transitions : List Control.Transition,
      ((s.transits w transitions).control w).seq < 2 ^ 62 ∧
      ((s.transits w transitions).control w).seq = transitions.count .commit % 2 ^ 62 ∧
      (((s.transits w transitions).control w).valid = .b ↔
        ((s.transits w transitions).control w).seq % 2 = 1) ∧
      (s.transits w transitions).control w
        = transitions.foldl Control.Transition.apply .untouched) := by
  rw [← Control.commitCounts_eq]
  refine ⟨?_, ?_, Control.ofBits_toBits, Control.toBits_eq, exchanges hw, ?_⟩
  · intro b
    exact ⟨Control.seq_ofBits_lt b, Control.toBits_ofBits b⟩
  · intro c hfits
    rw [Control.ofBits_toBits, Nat.mod_eq_of_lt hfits]
  · intro huntouched transitions
    have hstart := Control.counts_untouched
    rw [← huntouched] at hstart
    obtain ⟨hcounts, hcontrol⟩ := counts_transits hw hstart transitions
    rw [Nat.zero_add] at hcounts
    rw [huntouched] at hcontrol
    exact ⟨hcounts.seq_lt, hcounts.seq, hcounts.valid, hcontrol⟩

/-- A word is written and committed, committed again, claimed and released, and
    committed for the third time. -/
def threeCommits : List Control.Transition :=
  let id : TransactionId := ⟨1, by decide, by decide⟩
  [.write id, .commit, .commit, .claim id, .release, .commit]

/-- A count that is full agrees with the one of an untouched word. After three
    commits of the word its second copy is valid. -/
theorem controls_stored_faithfully_full_count :
    ∃ s : Segment, 0 < s.words ∧ s.control 0 = .untouched ∧
      (s.control 0).Agrees { seq := 2 ^ 62 } ∧
      s.Exchanges 0 { seq := 2 ^ 62 } { seq := 2 ^ 62 + 5 } ∧
      Control.ofBits (Control.toBits { seq := 2 ^ 62 + 5 }) = { seq := (2 ^ 62 + 5) % 2 ^ 62 } ∧
      ((s.transits 0 threeCommits).control 0).seq = 3 ∧
      ((s.transits 0 threeCommits).control 0).valid = .b := by
  have hword : 0 < (zeroed 0 8 8).words := by decide
  obtain ⟨-, -, hmodulo, -, hexchanges, hcounts⟩ := controls_stored_faithfully hword
  have huntouched : (zeroed 0 8 8).control 0 = .untouched := by decide
  have hagrees : ((zeroed 0 8 8).control 0).Agrees { seq := 2 ^ 62 } := by
    rw [huntouched]
    exact ⟨rfl, rfl, rfl, by decide⟩
  obtain ⟨-, hseq, hvalid, -⟩ := hcounts huntouched threeCommits
  have hthree : threeCommits.count .commit % 2 ^ 62 = 3 := by decide
  rw [hthree] at hseq
  rw [hseq] at hvalid
  exact ⟨_, hword, huntouched, hagrees, hexchanges _ _, hmodulo _, hseq, hvalid.2 rfl⟩

end Segment

end TransactionalMemory
