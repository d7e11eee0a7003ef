import TransactionalMemory.Proofs.Region.Standing
import TransactionalMemory.Proofs.Transaction.Passes

/-! # Where a pass stops

    A word is barred to a reader by a write that another transaction has pending
    there, and to a writer by any claim of another transaction. A pass ends at
    the first word of its range that is barred, if there is one.

    Words are taken as they are stored, with both copies, so that nothing about
    the words behind the end of a pass is left open: a pass changes each word
    before its end in the same way as if it were the only one, and no other
    word. The log has an entry for each word before the end. -/

namespace TransactionalMemory

/-! ## One word -/

namespace Control

def HeldByOther (c : Control) (id : TransactionId) : Prop := ∃ u, u ≠ id ∧ c.accessor = some u

def WrittenByOther (c : Control) (id : TransactionId) : Prop :=
  c.written = true ∧ c.HeldByOther id

/-- If a write is pending, it has an accessor. -/
def Attributed (c : Control) : Prop := c.written = true → c.accessor ≠ none

/-- How access is granted to a transaction that nobody bars. -/
def grantTo (c : Control) (id : TransactionId) : Grant :=
  match c.accessor with
  | none => .claimed
  | some owner => if owner = id then .owned else .observed c.seq

theorem ownedBy_eq_true_iff {c : Control} {id : TransactionId} :
    c.ownedBy id = true ↔ c.accessor = some id := by
  rw [ownedBy, beq_iff_eq]

theorem not_ownedBy_of_held {c : Control} {id : TransactionId} (h : c.HeldByOther id) :
    c.ownedBy id = false := by
  obtain ⟨u, hne, hu⟩ := h
  simp [ownedBy, hu, hne]

/-- A word that nobody else holds is free, or the own one. -/
theorem accessor_of_not_held {c : Control} {id : TransactionId} (h : ¬ c.HeldByOther id) :
    c.accessor = none ∨ c.accessor = some id := by
  cases haccessor : c.accessor with
  | none => exact .inl rfl
  | some u =>
    by_cases hu : u = id
    · exact .inr (congrArg some hu)
    · exact absurd ⟨u, hu, haccessor⟩ h

/-- A pending write that is nobody else's is the own one. -/
theorem ownedBy_of_not_written {c : Control} {id : TransactionId} (hattributed : c.Attributed)
    (h : ¬ c.WrittenByOther id) (hwritten : c.written = true) : c.ownedBy id = true := by
  have hheld : ¬ c.HeldByOther id := fun hheld => h ⟨hwritten, hheld⟩
  rw [ownedBy_eq_true_iff]
  exact (accessor_of_not_held hheld).resolve_left (hattributed hwritten)

theorem grantTo_of_owned {c : Control} {id : TransactionId} (h : c.ownedBy id = true) :
    c.grantTo id = .owned := by
  simp [grantTo, ownedBy_eq_true_iff.1 h]

end Control

namespace Stored

/-- The word after it was read: it is claimed, if it was free. -/
def readBy (x : Stored) (id : TransactionId) : Stored :=
  if x.control.accessor = none then { x with control := x.control.claimedBy id } else x

/-- The word after it was written: it is claimed, and the bytes are in the copy
    that is not valid. -/
def writtenBy (x : Stored) (id : TransactionId) (bytes : List UInt8) : Stored where
  control := x.control.writtenBy id
  bytes := fun c => if c = x.control.scratch then bytes else x.bytes c

end Stored

/-! ## One word of a segment -/

namespace Segment

variable {s s' : Segment} {id : TransactionId} {w : Nat} {bytes : List UInt8}

/-- The change from `s` to `s'` stores word `w` as `x`, and leaves every other
    word as it is stored. -/
structure Rewrites (s s' : Segment) (w : Nat) (x : Stored) : Prop where
  layout : s'.layout = s.layout
  shaped : s.Shaped → s'.Shaped
  self : s'.stored w = x
  others : ∀ v, v ≠ w → s'.stored v = s.stored v

theorem rewrites_refl (s : Segment) (w : Nat) : s.Rewrites s w (s.stored w) :=
  ⟨rfl, id, rfl, fun _ _ => rfl⟩

theorem Rewrites.control_of_lt {x : Stored} (h : s.Rewrites s' w x) {v : Nat} (hv : w < v) :
    s'.control v = s.control v :=
  congrArg Stored.control (h.others v (Nat.ne_of_gt hv))

/-- Storing a control leaves both copies of its word. -/
theorem rewrites_setControl (s : Segment) {c : Control} (hw : w < s.words)
    (hseq : c.seq = (s.control w).seq) :
    s.Rewrites (s.setControl w c) w { s.stored w with control := c } := by
  constructor
  · exact s.layout_setControl w c
  · intro h
    exact h.setControl w c
  · simp only [stored, load_setControl, s.control_setControl_of_seq_eq hw hseq]
  · intro v hv
    simp only [stored, load_setControl, s.control_setControl_ne c (Ne.symm hv)]

/-- Storing bytes in one copy of a word leaves the other copy and the control. -/
theorem rewrites_store (hs : s.Shaped) (c : Copy) (hw : w < s.words)
    (hlen : bytes.length = s.wordSize) :
    s.Rewrites (s.store c w bytes) w
      { s.stored w with bytes := fun d => if d = c then bytes else s.load d w } := by
  constructor
  · exact s.layout_store ..
  · intro h
    exact h.store c w bytes
  · have hbytes : ∀ d, (s.store c w bytes).load d w = if d = c then bytes else s.load d w := by
      intro d
      by_cases hd : d = c
      · rw [if_pos hd, hd, load_store_self hs c hw hlen]
      · rw [if_neg hd, load_store_of_copy_ne s (Ne.symm hd)]
    simp only [stored, control_store, hbytes]
  · intro v hv
    simp only [stored, control_store, load_store_of_word_ne s _ _ (Ne.symm hv)]

/-- The first write of a transaction to a word. -/
theorem rewrites_beginWrite (hs : s.Shaped) (id : TransactionId) (hw : w < s.words)
    (hlen : bytes.length = s.wordSize) :
    s.Rewrites (s.beginWrite id w bytes) w ((s.stored w).writtenBy id bytes) := by
  have hset := s.rewrites_setControl (c := (s.control w).writtenBy id) hw rfl
  generalize hclaimed : s.setControl w ((s.control w).writtenBy id) = middle at hset
  have hwords : w < middle.words := by rw [← hclaimed, words_setControl]; exact hw
  have hsize : bytes.length = middle.wordSize := by rw [← hclaimed]; exact hlen
  have hstore := rewrites_store (hset.shaped hs) (s.control w).scratch hwords hsize
  have hresult : s.beginWrite id w bytes = middle.store (s.control w).scratch w bytes := by
    rw [beginWrite, hclaimed]
  have hload : ∀ d, middle.load d w = s.load d w := by
    intro d
    rw [← hclaimed, load_setControl]
  rw [hresult]
  constructor
  · exact hstore.layout.trans hset.layout
  · intro h
    exact hstore.shaped (hset.shaped h)
  · rw [hstore.self, hset.self]
    simp only [Stored.writtenBy, stored, hload]
    rfl
  · intro v hv
    rw [hstore.others v hv, hset.others v hv]

/-! ### Reading -/

/-- A word that another transaction has written cannot be read. -/
theorem readWord_of_barred (h : (s.control w).WrittenByOther id) :
    s.readWord id w = (none, s) := by
  simp [readWord, h.1, Control.not_ownedBy_of_held h.2]

/-- Any other word can, and is claimed if it was free. -/
theorem readWord_of_clear (hw : w < s.words) (hattributed : (s.control w).Attributed)
    (h : ¬ (s.control w).WrittenByOther id) :
    ∃ bytes s', s.readWord id w = (some ((s.control w).grantTo id, bytes), s') ∧
      s.Rewrites s' w ((s.stored w).readBy id) := by
  have hkeeps : (s.control w).accessor ≠ none → (s.stored w).readBy id = s.stored w := by
    intro haccessor
    exact if_neg haccessor
  by_cases hwritten : (s.control w).written = true
  · have howned := Control.ownedBy_of_not_written hattributed h hwritten
    have hself := hkeeps (hattributed hwritten)
    rw [Control.grantTo_of_owned howned, hself]
    exact ⟨_, s, by simp [readWord, hwritten, howned]; rfl, s.rewrites_refl w⟩
  · cases haccessor : (s.control w).accessor with
    | none =>
      -- Nobody has the word: it is claimed.
      have hgrant : (s.control w).grantTo id = .claimed := by simp [Control.grantTo, haccessor]
      have hself : (s.stored w).readBy id
          = { s.stored w with control := (s.control w).claimedBy id } := if_pos haccessor
      have hset := s.rewrites_setControl (c := (s.control w).claimedBy id) hw rfl
      rw [hgrant, hself]
      exact ⟨_, _, by simp [readWord, hwritten, haccessor]; rfl, hset⟩
    | some owner =>
      have hself := hkeeps (by rw [haccessor]; exact Option.some_ne_none owner)
      have hgrant : (s.control w).grantTo id
          = if owner = id then .owned else .observed (s.control w).seq := by
        simp [Control.grantTo, haccessor]
      rw [hgrant, hself]
      exact ⟨_, s, by simp [readWord, hwritten, haccessor]; rfl, s.rewrites_refl w⟩

/-! ### Writing -/

/-- A word that another transaction has claimed cannot be written. -/
theorem writeWord_of_barred (h : (s.control w).HeldByOther id) (bytes : List UInt8) :
    s.writeWord id w bytes = (none, s) := by
  have howned := Control.not_ownedBy_of_held h
  obtain ⟨u, hne, hu⟩ := h
  unfold writeWord
  simp [hu, hne, howned]

/-- Any other word can, and is claimed then. -/
theorem writeWord_of_clear (hs : s.Shaped) (hw : w < s.words)
    (hattributed : (s.control w).Attributed) (h : ¬ (s.control w).HeldByOther id)
    (hlen : bytes.length = s.wordSize) :
    ∃ s', s.writeWord id w bytes = (some ((s.control w).grantTo id), s') ∧
      s.Rewrites s' w ((s.stored w).writtenBy id bytes) := by
  have hbegun := rewrites_beginWrite hs id hw hlen
  by_cases hwritten : (s.control w).written = true
  · have howned := Control.ownedBy_of_not_written hattributed (fun hbarred => h hbarred.2) hwritten
    -- The control says already what a write makes of it.
    have hsame : (s.control w).writtenBy id = s.control w := by
      have haccessor := Control.ownedBy_eq_true_iff.1 howned
      rw [Control.writtenBy, ← hwritten, ← haccessor]
    have hstored : (s.stored w).writtenBy id bytes = { s.stored w with
        bytes := fun d => if d = (s.control w).scratch then bytes else s.load d w } := by
      simp only [Stored.writtenBy, stored, hsame]
      rfl
    rw [Control.grantTo_of_owned howned, hstored]
    exact ⟨_, by simp [writeWord, hwritten, howned], rewrites_store hs _ hw hlen⟩
  · rcases Control.accessor_of_not_held h with haccessor | haccessor
    · have hgrant : (s.control w).grantTo id = .claimed := by simp [Control.grantTo, haccessor]
      rw [hgrant]
      exact ⟨_, by simp [writeWord, hwritten, haccessor], hbegun⟩
    · have hgrant : (s.control w).grantTo id = .owned := by simp [Control.grantTo, haccessor]
      rw [hgrant]
      exact ⟨_, by simp [writeWord, hwritten, haccessor], hbegun⟩

end Segment

/-! ## Passes -/

namespace Transaction

variable {t : Transaction} {s s' : Segment} {n first count k : Nat}

/-- The transaction after access to `count` words from `first` on was granted. -/
def noting (t : Transaction) (s : Segment) (n : Nat) : (first count : Nat) → Transaction
  | _, 0 => t
  | first, count + 1 =>
    noting (t.log ⟨n, first⟩ ((s.control first).grantTo t.id)) s n (first + 1) count

/-- What is noted depends on the controls of the words alone. -/
theorem noting_congr (t : Transaction) (n first count : Nat)
    (h : ∀ w, first ≤ w → w < first + count → s'.control w = s.control w) :
    t.noting s' n first count = t.noting s n first count := by
  induction count generalizing t first with
  | zero => rfl
  | succ count ih =>
    have hfirst := h first (Nat.le_refl _) (by omega)
    have hrest : ∀ w, first + 1 ≤ w → w < first + 1 + count → s'.control w = s.control w := by
      intro w hlow hhigh
      exact h w (by omega) (by omega)
    rw [noting, noting, hfirst]
    exact ih _ (first + 1) hrest

/-- A pass over `count` words from `first` on has done `k` of them, which it has
    changed, each in its way. The next one, if there is one, is barred. -/
structure Pass.Stops {α : Type} (pass : Pass α) (t : Transaction) (s : Segment)
    (n first count : Nat) (barred : Control → Prop) (change : Nat → Stored → Stored) (k : Nat) :
    Prop where
  le : k ≤ count
  clear : ∀ w, first ≤ w → w < first + k → ¬ barred (s.control w)
  halts : k < count → barred (s.control (first + k)) ∧ pass.value = .error (first + k)
  ends : k = count → ∃ value, pass.value = .ok value
  notes : pass.transaction = t.noting s n first k
  layout : pass.segment.layout = s.layout
  shaped : s.Shaped → pass.segment.Shaped
  done : ∀ w, first ≤ w → w < first + k → pass.segment.stored w = change w (s.stored w)
  others : ∀ w, ¬ (first ≤ w ∧ w < first + k) → pass.segment.stored w = s.stored w

namespace Pass.Stops

variable {α : Type} {pass : Pass α} {barred : Control → Prop}
  {change change' : Nat → Stored → Stored}

/-- A pass that does no word changes nothing. -/
theorem none_done {value : Except Nat α}
    (hhalts : 0 < count → barred (s.control first) ∧ value = .error first)
    (hends : count = 0 → ∃ bytes, value = .ok bytes) :
    (⟨value, t, s⟩ : Pass α).Stops t s n first count barred change 0 := by
  constructor
  · exact Nat.zero_le count
  · intro w hlow hhigh
    omega
  · exact hhalts
  · intro hzero
    exact hends hzero.symm
  · rfl
  · rfl
  · intro hs
    exact hs
  · intro w hlow hhigh
    omega
  · intro w _
    rfl

/-- A pass over no words reaches their end. -/
theorem zero (t : Transaction) (s : Segment) (n first : Nat) (value : α) :
    (⟨.ok value, t, s⟩ : Pass α).Stops t s n first 0 barred change 0 :=
  none_done (fun hlt => absurd hlt (Nat.lt_irrefl 0)) fun _ => ⟨value, rfl⟩

/-- A pass whose first word is barred ends there. -/
theorem halted (hbarred : barred (s.control first)) (count : Nat) :
    (⟨.error first, t, s⟩ : Pass α).Stops t s n first (count + 1) barred change 0 :=
  none_done (fun _ => ⟨hbarred, rfl⟩) fun hzero => absurd hzero (Nat.succ_ne_zero count)

/-- A pass whose first word is done goes on behind it. -/
theorem succ (hclear : ¬ barred (s.control first))
    (hfirst : s.Rewrites s' first (change first (s.stored first)))
    (hsame : ∀ w, first < w → change' w = change w)
    (h : pass.Stops (t.log ⟨n, first⟩ ((s.control first).grantTo t.id)) s' n (first + 1) count
      barred change' k) :
    pass.Stops t s n first (count + 1) barred change (k + 1) := by
  have hnext : first + (k + 1) = first + 1 + k := by omega
  constructor
  · exact Nat.succ_le_succ h.le
  · intro w hlow hhigh
    by_cases hw : w = first
    · rw [hw]
      exact hclear
    · have hrest := h.clear w (by omega) (by omega)
      rwa [hfirst.control_of_lt (by omega)] at hrest
  · intro hlt
    have hhalts := h.halts (by omega)
    rwa [hfirst.control_of_lt (by omega), ← hnext] at hhalts
  · intro heq
    exact h.ends (by omega)
  · rw [h.notes, noting]
    apply noting_congr
    intro w hlow _
    exact hfirst.control_of_lt hlow
  · exact h.layout.trans hfirst.layout
  · exact h.shaped ∘ hfirst.shaped
  · intro w hlow hhigh
    by_cases hw : w = first
    · -- The first word is done, and the rest of the pass leaves it.
      rw [h.others w (by omega), hw]
      exact hfirst.self
    · rw [h.done w (by omega) (by omega), hfirst.others w hw, hsame w (by omega)]
  · intro w hw
    rw [h.others w (by omega), hfirst.others w (by omega)]

end Pass.Stops

/-- A pass of reads ends at the first word that another transaction has written. -/
theorem readWords_stops (hrange : first + count ≤ s.words)
    (hattributed : ∀ w, first ≤ w → w < first + count → (s.control w).Attributed)
    (soFar : Array UInt8) :
    ∃ k, (t.readWords s n first count soFar).Stops t s n first count
      (·.WrittenByOther t.id) (fun _ x => x.readBy t.id) k := by
  induction count generalizing t s first soFar with
  | zero => exact ⟨0, .zero t s n first soFar.toList⟩
  | succ count ih =>
    by_cases hbarred : (s.control first).WrittenByOther t.id
    · have hpass : t.readWords s n first (count + 1) soFar = ⟨.error first, t, s⟩ := by
        simp only [readWords, Segment.readWord_of_barred hbarred]
      rw [hpass]
      exact ⟨0, .halted hbarred count⟩
    · obtain ⟨bytes, s', hread, hfirst⟩ :=
        Segment.readWord_of_clear (by omega) (hattributed first (Nat.le_refl _) (by omega)) hbarred
      have hwords : s'.words = s.words := congrArg (fun l => l.2.2.2) hfirst.layout
      have hrest : ∀ w, first + 1 ≤ w → w < first + 1 + count → (s'.control w).Attributed := by
        intro w hlow hhigh
        rw [hfirst.control_of_lt hlow]
        exact hattributed w (by omega) (by omega)
      obtain ⟨k, hstops⟩ := ih (t := t.log ⟨n, first⟩ ((s.control first).grantTo t.id))
        (by omega) hrest (soFar ++ bytes)
      have hpass : t.readWords s n first (count + 1) soFar
          = (t.log ⟨n, first⟩ ((s.control first).grantTo t.id)).readWords s' n (first + 1) count
              (soFar ++ bytes) := by
        simp only [readWords, hread]
      rw [id_log] at hstops
      rw [hpass]
      exact ⟨k + 1, hstops.succ hbarred hfirst fun _ _ => rfl⟩

def part (wordSize first : Nat) (bytes : List UInt8) (w : Nat) : List UInt8 :=
  (bytes.drop ((w - first) * wordSize)).take wordSize

/-- Behind the first word, the parts are those of the rest of the bytes. -/
theorem part_drop (wordSize first : Nat) (bytes : List UInt8) {w : Nat} (hw : first < w) :
    part wordSize (first + 1) (bytes.drop wordSize) w = part wordSize first bytes w := by
  have hskip : wordSize + (w - (first + 1)) * wordSize = (w - first) * wordSize := by
    rw [show w - first = (w - (first + 1)) + 1 by omega, Nat.succ_mul, Nat.add_comm]
  rw [part, part, List.drop_drop, hskip]

/-- A pass of writes ends at the first word that another transaction has claimed. -/
theorem writeWords_stops (hs : s.Shaped) (hrange : first + count ≤ s.words)
    (hattributed : ∀ w, first ≤ w → w < first + count → (s.control w).Attributed)
    {bytes : List UInt8} (hlen : bytes.length = count * s.wordSize) :
    ∃ k, (t.writeWords s n s.wordSize first count bytes).Stops t s n first count
      (·.HeldByOther t.id) (fun w x => x.writtenBy t.id (part s.wordSize first bytes w)) k := by
  induction count generalizing t s first bytes with
  | zero => exact ⟨0, .zero t s n first ()⟩
  | succ count ih =>
    by_cases hbarred : (s.control first).HeldByOther t.id
    · have hpass : t.writeWords s n s.wordSize first (count + 1) bytes = ⟨.error first, t, s⟩ := by
        simp only [writeWords, Segment.writeWord_of_barred hbarred]
      rw [hpass]
      exact ⟨0, .halted hbarred count⟩
    · have hpart : (bytes.take s.wordSize).length = s.wordSize := by
        rw [List.length_take, hlen, Nat.succ_mul]
        omega
      have hleft : (bytes.drop s.wordSize).length = count * s.wordSize := by
        rw [List.length_drop, hlen, Nat.succ_mul]
        omega
      obtain ⟨s', hwrite, hfirst⟩ := Segment.writeWord_of_clear hs (by omega)
        (hattributed first (Nat.le_refl _) (by omega)) hbarred hpart
      have hlayout := hfirst.layout
      simp only [Segment.layout, Prod.mk.injEq] at hlayout
      obtain ⟨-, -, hsize, hwords⟩ := hlayout
      have hrest : ∀ w, first + 1 ≤ w → w < first + 1 + count → (s'.control w).Attributed := by
        intro w hlow hhigh
        rw [hfirst.control_of_lt hlow]
        exact hattributed w (by omega) (by omega)
      obtain ⟨k, hstops⟩ := ih (t := t.log ⟨n, first⟩ ((s.control first).grantTo t.id))
        (hfirst.shaped hs) (by omega) hrest (hleft.trans (by rw [hsize]))
      have hpass : t.writeWords s n s.wordSize first (count + 1) bytes
          = (t.log ⟨n, first⟩ ((s.control first).grantTo t.id)).writeWords s' n s.wordSize
              (first + 1) count (bytes.drop s.wordSize) := by
        simp only [writeWords, hwrite]
      have hself : part s.wordSize first bytes first = bytes.take s.wordSize := by simp [part]
      rw [id_log, hsize] at hstops
      rw [hpass]
      refine ⟨k + 1, hstops.succ hbarred ?_ ?_⟩
      · simp only [hself]
        exact hfirst
      · intro w hw
        simp only [part_drop _ _ _ hw]

end Transaction

end TransactionalMemory
