import TransactionalMemory.Proofs.Session.Extents
import TransactionalMemory.Proofs.Transaction.Coverage

/-! # Where an access conflicts

    A read-write transaction that accesses a range inside a live segment fails
    if and only if some word of the range is barred to it: a read by a pending
    write of another transaction, a write by any claim of another transaction.
    The error is a conflict at the address of the first such word. Whoever bars
    it is open: no word is barred by a transaction that has ended.

    The words before the barred one are done as if the range had ended there,
    and nothing else about any word has changed. -/

namespace TransactionalMemory

namespace Session

variable {s start : Session} {h : Handle} {t : Transaction} {a : Address} {seg : Segment}
  {i n length count k : Nat} {first : WordRef} {barred : Control → Prop}
  {change : Nat → Stored → Stored}

/-! ## One access -/

/-- Transaction `h` has done `k` words from `first` on, each in its way, and has
    noted them; it is doomed if it has failed. Nothing else has changed. -/
def DoneUpTo (s s' : Session) (h : Handle) (t : Transaction) (seg : Segment) (first : WordRef)
    (change : Nat → Stored → Stored) (k : Nat) (failed : Bool) : Prop :=
  ∃ r', s.region.PassedOver r' first k change ∧
    s' = s.put h (some (if failed then (t.noting seg first.segment first.word k).doom
      else t.noting seg first.segment first.word k)) r'

/-- The word with this control is claimed by another transaction than `h`, which is open. -/
def HeldOpen (s : Session) (h : Handle) (c : Control) : Prop :=
  ∃ k u, k ≠ h ∧ s.open? k = some u ∧ u.isReadOnly = false ∧ c.accessor = some u.id

/-- What access of transaction `h` to `count` words from `first` on, at address
    `a`, comes to. -/
structure Accesses {α : Type} (s : Session) (h : Handle) (t : Transaction) (a : Address)
    (first : WordRef) (seg : Segment) (count : Nat) (barred : Control → Prop)
    (change : Nat → Stored → Stored) (result : Option (Except Failure α) × Session) : Prop where
  answered : (∃ value, result.1 = some (.ok value)) ∨ ∃ failure, result.1 = some (.error failure)
  fails_iff : (∃ failure, result.1 = some (.error failure)) ↔
    ∃ k < count, barred (seg.control (first.word + k))
  /-- It fails at the first word that is barred, whose address is in the error. -/
  conflict : ∀ failure, result.1 = some (.error failure) → ∃ k < count,
    barred (seg.control (first.word + k)) ∧ (∀ j < k, ¬ barred (seg.control (first.word + j))) ∧
    failure = .conflict (a.advance (k * s.region.wordSize)) ∧
    (a.advance (k * s.region.wordSize)).slot? = a.slot? ∧
    (a.advance (k * s.region.wordSize)).offset = (first.word + k) * s.region.wordSize ∧
    s.HeldOpen h (seg.control (first.word + k)) ∧ s.DoneUpTo result.2 h t seg first change k true
  success : ∀ value, result.1 = some (.ok value) →
    s.DoneUpTo result.2 h t seg first change count false

/-- Every write that is pending has an accessor. -/
theorem Steady.attributed (hs : s.Steady) : s.region.Attributed := by
  intro n seg w hseg hw hwritten
  have hcell : s.region.cell? ⟨n, w⟩ = some (seg.cell w) :=
    Region.cell?_eq_some_iff.2 ⟨seg, hseg, hw, rfl⟩
  have hpending : (seg.cell w).pending ≠ none := by
    simp [Segment.cell, hwritten]
  exact hs.pending ⟨n, w⟩ (seg.cell w) hcell hpending

/-- Whoever holds a word against a transaction is open. -/
theorem heldOpen_of_heldByOther (hs : s.Steady) (ho : s.open? h = some t) {w : Nat}
    (hseg : s.region.segment? n = some seg) (hw : w < seg.words)
    (hheld : (seg.control w).HeldByOther t.id) : s.HeldOpen h (seg.control w) := by
  obtain ⟨id, hne, haccessor⟩ := hheld
  have hcell : s.region.cell? ⟨n, w⟩ = some (seg.cell w) :=
    Region.cell?_eq_some_iff.2 ⟨seg, hseg, hw, rfl⟩
  obtain ⟨k, u, hu, hmode, -⟩ := hs.accessors ⟨n, w⟩ (seg.cell w) id hcell haccessor
  have hid : u.id = id := by rw [Transaction.id, hmode]; rfl
  refine ⟨k, u, ?_, hu, ?_, ?_⟩
  · intro hk
    rw [hk, ho] at hu
    cases hu
    exact hne hid.symm
  · rw [Transaction.isReadOnly, hmode]
    rfl
  · rw [hid]
    exact haccessor

/-- The address of a word in the range of an access. -/
theorem address_of_word (hs : s.Steady) (hspanned : s.region.Spanned)
    (hseg : s.region.segment? first.segment = some seg) {slot : Nat}
    (hresolved : t.Resolved s.region a length slot first) (hk : k < length / s.region.wordSize) :
    (a.advance (k * s.region.wordSize)).slot? = a.slot? ∧
      (a.advance (k * s.region.wordSize)).offset = (first.word + k) * s.region.wordSize := by
  obtain ⟨-, hwhole⟩ := hresolved.range_le hs.shaped hseg
  have hin := hresolved.inside
  simp only [Transaction.inBounds, hseg, Option.elim_some, Bool.and_eq_true, beq_iff_eq,
    decide_eq_true_eq] at hin
  obtain ⟨⟨-, hoffset⟩, hend⟩ := hin
  have hstart : first.word * s.region.wordSize = a.offset := by
    rw [hresolved.word_eq]
    exact Nat.div_mul_cancel (Nat.dvd_of_mod_eq_zero hoffset)
  have hbefore : k * s.region.wordSize < length := by
    rw [← hwhole]
    exact Nat.mul_lt_mul_of_pos_right hk hs.sized.positive
  have hsize := hspanned first.segment seg hseg
  have hspan : a.offset + k * s.region.wordSize < Address.offsetSpan := by
    unfold maxSegmentBytes at hsize
    omega
  obtain ⟨hslot, hadvanced⟩ := Address.advance_inside hspan
  refine ⟨hslot, ?_⟩
  rw [hadvanced, ← hstart, Nat.add_mul]

section

variable {α : Type} {operation : Transaction → Region → Outcome α}

/-- An operation that has stopped at a barred word is such an access. -/
theorem accesses_of_barred (hs : s.Steady) (hspanned : s.region.Spanned)
    (ho : s.open? h = some t) (hseg : s.region.segment? first.segment = some seg)
    {slot : Nat} (hresolved : t.Resolved s.region a length slot first)
    (hheld : ∀ c, barred c → c.HeldByOther t.id)
    (hcovers : t.Covers s.region a first seg (length / s.region.wordSize) barred change
      (operation t s.region) k) (hlt : k < length / s.region.wordSize) :
    s.Accesses h t a first seg (length / s.region.wordSize) barred change
      (s.access h operation) := by
  obtain ⟨hrange, -⟩ := hresolved.range_le hs.shaped hseg
  obtain ⟨hbarred, hvalue, htransaction⟩ := hcovers.conflict hlt
  have hopen := access_of_open operation ho
  have hanswer : (s.access h operation).1
      = some (.error (.conflict (a.advance (k * s.region.wordSize)))) := by
    rw [hopen, hvalue]
  constructor
  · exact .inr ⟨_, hanswer⟩
  · constructor
    · intro _
      exact ⟨k, hlt, hbarred⟩
    · intro _
      exact ⟨_, hanswer⟩
  · intro failure hfailure
    rw [hanswer] at hfailure
    cases hfailure
    obtain ⟨hslot, hoffset⟩ := address_of_word hs hspanned hseg hresolved hlt
    have hclear : ∀ j < k, ¬ barred (seg.control (first.word + j)) := by
      intro j hj
      exact hcovers.clear (first.word + j) (by omega) (by omega)
    have hholder := heldOpen_of_heldByOther hs ho hseg (by omega) (hheld _ hbarred)
    refine ⟨k, hlt, hbarred, hclear, rfl, hslot, hoffset, hholder, _, hcovers.region, ?_⟩
    rw [hopen, htransaction]
    rfl
  · intro value hvalue
    rw [hanswer] at hvalue
    cases hvalue

/-- An operation that has reached the end of its range is such an access. -/
theorem accesses_of_clear (ho : s.open? h = some t)
    (hcovers : t.Covers s.region a first seg count barred change (operation t s.region) count) :
    s.Accesses h t a first seg count barred change (s.access h operation) := by
  obtain ⟨⟨value, hvalue⟩, htransaction⟩ := hcovers.success rfl
  have hopen := access_of_open operation ho
  have hanswer : (s.access h operation).1 = some (.ok value) := by
    rw [hopen, hvalue]
  constructor
  · exact .inl ⟨value, hanswer⟩
  · constructor
    · rintro ⟨failure, hfailure⟩
      rw [hanswer] at hfailure
      cases hfailure
    · rintro ⟨j, hj, hbarred⟩
      exact absurd hbarred (hcovers.clear (first.word + j) (by omega) (by omega))
  · intro failure hfailure
    rw [hanswer] at hfailure
    cases hfailure
  · intro value' _
    refine ⟨_, hcovers.region, ?_⟩
    rw [hopen, htransaction]
    rfl

end

/-- An operation that covers its words is such an access. -/
theorem accesses_of_covers {α : Type} (operation : Transaction → Region → Outcome α)
    (hs : s.Steady) (hspanned : s.region.Spanned)
    (ho : s.open? h = some t) (hseg : s.region.segment? first.segment = some seg)
    {slot : Nat} (hresolved : t.Resolved s.region a length slot first)
    (hheld : ∀ c, barred c → c.HeldByOther t.id)
    (hcovers : t.Covers s.region a first seg (length / s.region.wordSize) barred change
      (operation t s.region) k) :
    s.Accesses h t a first seg (length / s.region.wordSize) barred change
      (s.access h operation) := by
  by_cases hlt : k < length / s.region.wordSize
  · exact accesses_of_barred hs hspanned ho hseg hresolved hheld hcovers hlt
  · have hend : k = length / s.region.wordSize :=
      Nat.le_antisymm hcovers.le (Nat.le_of_not_lt hlt)
    subst hend
    exact accesses_of_clear ho hcovers

section

variable {slot : Nat} (hs : s.Steady) (hspanned : s.region.Spanned) (ho : s.open? h = some t)
  (hundoomed : t.doomed = false) (hrw : t.isReadOnly = false)
  (hseg : s.region.segment? first.segment = some seg)

include hs hspanned ho hundoomed hrw hseg

theorem accesses_read (hresolved : t.Resolved s.region a length slot first) :
    s.Accesses h t a first seg (length / s.region.wordSize) (·.WrittenByOther t.id)
      (fun _ x => x.readBy t.id) (s.read h a length) := by
  obtain ⟨k, hcovers⟩ := Transaction.read_covers hs.shaped hs.attributed hundoomed hrw hseg
    hresolved
  exact accesses_of_covers (fun t r => t.read r a length) hs hspanned ho hseg hresolved
    (fun c hbarred => hbarred.2) hcovers

theorem accesses_write {bytes : List UInt8}
    (hresolved : t.Resolved s.region a bytes.length slot first) :
    s.Accesses h t a first seg (bytes.length / s.region.wordSize) (·.HeldByOther t.id)
      (fun w x => x.writtenBy t.id (Transaction.part s.region.wordSize first.word bytes w))
      (s.write h a bytes) := by
  obtain ⟨k, hcovers⟩ := Transaction.write_covers hs.shaped hs.attributed hundoomed hrw hseg
    hresolved
  exact accesses_of_covers (fun t r => t.write r a bytes) hs hspanned ho hseg hresolved
    (fun c hbarred => hbarred) hcovers

end

/-! ## After a run -/

/-- An undoomed read-write transaction reaches every range of whole words inside a live segment. -/
theorem resolved_of_live {r : Region} (ha : a.slot? = some i) (hlive : r.table.lookup i = .live n)
    (hseg : r.segment? n = some seg)
    (hin : Transaction.inBounds r.wordSize seg.size a.offset length = true) :
    t.Resolved r a length i ⟨n, a.offset / r.wordSize⟩ where
  slot_eq := ha
  reached := by rw [Transaction.reach, hlive]
  word_eq := rfl
  inside := by rw [hseg]; exact hin

/-- After every run, a read by an undoomed read-write transaction of a range in a
    live segment conflicts exactly at the first word that another open
    transaction has written, and a write at the first word that another open
    transaction has claimed. -/
theorem run_conflicts {settings : Settings} (hcreate : create settings = .ok start)
    (operations : List Operation) (hs : (start.run operations).2 = s) (ho : s.open? h = some t)
    (hrw : t.isReadOnly = false) (hundoomed : t.doomed = false) (ha : a.slot? = some i)
    (hlive : s.region.table.lookup i = .live n) (hseg : s.region.segment? n = some seg)
    (hin : Transaction.inBounds s.region.wordSize seg.size a.offset length = true) :
    s.Accesses h t a ⟨n, a.offset / s.region.wordSize⟩ seg (length / s.region.wordSize)
      (·.WrittenByOther t.id) (fun _ x => x.readBy t.id) (s.read h a length) ∧
    ∀ bytes, bytes.length = length →
      s.Accesses h t a ⟨n, a.offset / s.region.wordSize⟩ seg (length / s.region.wordSize)
        (·.HeldByOther t.id)
        (fun w x => x.writtenBy t.id
          (Transaction.part s.region.wordSize (a.offset / s.region.wordSize) bytes w))
        (s.write h a bytes) := by
  have hspanned := spanned_run hcreate operations
  have hsteady := (steady_of_create hcreate).run operations
  rw [hs] at hspanned hsteady
  have hresolved : t.Resolved s.region a length i ⟨n, a.offset / s.region.wordSize⟩ :=
    resolved_of_live ha hlive hseg hin
  constructor
  · exact accesses_read hsteady hspanned ho hundoomed hrw hseg hresolved
  · intro bytes hlength
    subst hlength
    exact accesses_write hsteady hspanned ho hundoomed hrw hseg hresolved

/-- One transaction has written the second of three words. Another one that
    reads all three fails there, and has claimed the first word. -/
theorem run_conflicts_second_word :
    ∃ start s t seg, create { size := 24, align := 8 } = .ok start ∧
      (start.run [.begin false, .begin false,
        .write 0 (Region.start.advance 8) [1, 2, 3, 4, 5, 6, 7, 8]]).2 = s ∧
      s.open? 1 = some t ∧ s.region.segment? 0 = some seg ∧
      s.Accesses 1 t Region.start ⟨0, 0⟩ seg 3 (·.WrittenByOther t.id)
        (fun _ x => x.readBy t.id) (s.read 1 Region.start 24) ∧
      (s.read 1 Region.start 24).1 = some (.error (.conflict (Region.start.advance 8))) := by
  refine ⟨_, _, _, _, rfl, rfl, rfl, rfl, ?_, by decide +kernel⟩
  have hall := @run_conflicts _ _ 1 _ Region.start _ 0 0 24 { size := 24, align := 8 } rfl
    [.begin false, .begin false, .write 0 (Region.start.advance 8) [1, 2, 3, 4, 5, 6, 7, 8]]
    rfl rfl rfl rfl (by decide +kernel) (by decide +kernel) rfl (by decide +kernel)
  exact hall.1

end Session

end TransactionalMemory
