import TransactionalMemory.Proofs.Transaction.Barriers
import TransactionalMemory.Proofs.Transaction.Outcomes

/-! # What an access covers

    A read or a write of a range covers the words up to the first one that is
    barred to its transaction. If there is none, it succeeds. If there is one,
    it fails with a conflict at the address of that word, and dooms the
    transaction. Either way the words that it covers are done, and nothing else
    in the region has changed. -/

namespace TransactionalMemory

def WordRef.Within (first : WordRef) (count : Nat) (ref : WordRef) : Prop :=
  ref.segment = first.segment ∧ first.word ≤ ref.word ∧ ref.word < first.word + count

namespace Region

variable {r r' : Region} {first : WordRef} {k : Nat} {change : Nat → Stored → Stored}

/-- Whoever has a write pending in a word is its accessor. -/
def Attributed (r : Region) : Prop :=
  ∀ n s w, r.segment? n = some s → w < s.words → (s.control w).Attributed

/-- The change from `r` to `r'` has done `k` words from `first` on, each in its
    way, and has changed nothing else. -/
structure PassedOver (r r' : Region) (first : WordRef) (k : Nat)
    (change : Nat → Stored → Stored) : Prop extends r.SameButWords r' where
  done : ∀ ref, first.Within k ref → r'.stored? ref = (r.stored? ref).map (change ref.word)
  others : ∀ ref, ¬ first.Within k ref → r'.stored? ref = r.stored? ref

/-- A word of a segment that is put in the place of another one of the same layout. -/
theorem stored?_updateSegment_self {n : Nat} {s s' : Segment} (hn : r.segment? n = some s)
    (hlayout : s'.layout = s.layout) {ref : WordRef} (href : ref.segment = n) :
    r.stored? ref = (if ref.word < s.words then some (s.stored ref.word) else none) ∧
      (r.updateSegment n fun _ => s').stored? ref =
        if ref.word < s.words then some (s'.stored ref.word) else none := by
  have hwords : s'.words = s.words := congrArg (fun l => l.2.2.2) hlayout
  unfold stored?
  rw [href, segment?_updateSegment_self, hn, Option.map_some, Option.bind_some, Option.bind_some,
    hwords]
  exact ⟨rfl, rfl⟩

/-- What a pass does to its segment it does to the region. -/
theorem passedOver_of_stops {α : Type} {pass : Transaction.Pass α} {t : Transaction} {s : Segment}
    {count : Nat} {barred : Control → Prop} (hfound : r.segment? first.segment = some s)
    (h : pass.Stops t s first.segment first.word count barred change k) :
    r.PassedOver (r.updateSegment first.segment fun _ => pass.segment) first k change := by
  constructor
  · exact sameButWords_of_layout hfound h.layout h.shaped
  · intro ref href
    obtain ⟨hold, hnew⟩ := stored?_updateSegment_self hfound h.layout href.1
    rw [hold, hnew, h.done ref.word href.2.1 href.2.2]
    by_cases hw : ref.word < s.words
    · simp [hw]
    · simp [hw]
  · intro ref href
    by_cases hsegment : ref.segment = first.segment
    · obtain ⟨hold, hnew⟩ := stored?_updateSegment_self hfound h.layout hsegment
      rw [hold, hnew, h.others ref.word fun hwithin => href ⟨hsegment, hwithin⟩]
    · unfold stored?
      rw [segment?_updateSegment_ne r _ (Ne.symm hsegment)]

end Region

namespace Transaction

variable {t : Transaction} {r : Region} {a : Address} {first : WordRef} {s : Segment}
  {count k slot : Nat} {barred : Control → Prop} {change : Nat → Stored → Stored}

/-- Whatever is noted of a range as touched is in the range. -/
theorem within_of_mem_touched {n w : Nat} {ref : WordRef}
    (href : ref ∈ (t.noting s n w count).touched) :
    ref ∈ t.touched ∨ (⟨n, w⟩ : WordRef).Within count ref := by
  induction count generalizing t w with
  | zero => exact .inl href
  | succ count ih =>
    rcases ih href with hlogged | ⟨hsegment, hlow, hhigh⟩
    · -- The first word may be the one that is new.
      have hfirst : ref ∈ t.touched ∨ ref = ⟨n, w⟩ := by
        cases hgrant : (s.control w).grantTo t.id with
        | claimed =>
          rw [hgrant] at hlogged
          exact (List.mem_cons.1 hlogged).symm
        | owned =>
          rw [hgrant] at hlogged
          exact .inl hlogged
        | observed seq =>
          rw [hgrant] at hlogged
          exact .inl hlogged
      rcases hfirst with hold | rfl
      · exact .inl hold
      · exact .inr ⟨rfl, Nat.le_refl w, Nat.lt_add_of_pos_right (Nat.succ_pos count)⟩
    · dsimp only at hlow hhigh
      refine .inr ⟨hsegment, ?_, ?_⟩
      · dsimp only
        omega
      · dsimp only
        omega

/-- What access to `count` words from `first` on, at address `a`, comes to: `k`
    of them are done. If these are not all, the next one is barred. -/
structure Covers {α : Type} (t : Transaction) (r : Region) (a : Address) (first : WordRef)
    (s : Segment) (count : Nat) (barred : Control → Prop) (change : Nat → Stored → Stored)
    (o : Outcome α) (k : Nat) : Prop where
  le : k ≤ count
  clear : ∀ w, first.word ≤ w → w < first.word + k → ¬ barred (s.control w)
  conflict : k < count → barred (s.control (first.word + k)) ∧
    o.value = .error (.conflict (a.advance (k * r.wordSize))) ∧
      o.transaction = (t.noting s first.segment first.word k).doom
  success : k = count → (∃ value, o.value = .ok value) ∧
    o.transaction = t.noting s first.segment first.word k
  region : r.PassedOver o.region first k change

/-- The outcome of a pass covers the words that the pass has done. -/
theorem covers_ofPass {α : Type} {pass : Pass α} (hfound : r.segment? first.segment = some s)
    (h : pass.Stops t s first.segment first.word count barred change k) :
    t.Covers r a first s count barred change (ofPass r a first pass) k := by
  have hregion := Region.passedOver_of_stops hfound h
  constructor
  · exact h.le
  · exact h.clear
  · intro hlt
    obtain ⟨hbarred, hvalue⟩ := h.halts hlt
    have hword : first.word + k - first.word = k := Nat.add_sub_cancel_left first.word k
    have houtcome : ofPass r a first pass = (t.noting s first.segment first.word k).fail
        (r.updateSegment first.segment fun _ => pass.segment)
        (.conflict (a.advance (k * r.wordSize))) := by
      simp only [ofPass, hvalue, h.notes, hword, Region.wordSize_updateSegment]
    rw [houtcome]
    exact ⟨hbarred, rfl, rfl⟩
  · intro heq
    obtain ⟨value, hvalue⟩ := h.ends heq
    simp only [ofPass, hvalue]
    exact ⟨⟨value, rfl⟩, h.notes⟩
  · unfold ofPass
    dsimp only
    cases pass.value with
    | ok value => exact hregion
    | error w => exact hregion

variable (hr : r.Shaped) (hattributed : r.Attributed) (hundoomed : t.doomed = false)
  (hrw : t.isReadOnly = false) (hfound : r.segment? first.segment = some s)

include hr hattributed hundoomed hrw hfound

/-- A read covers the words up to the first one that another transaction has written. -/
theorem read_covers {length : Nat} (hresolved : t.Resolved r a length slot first) :
    ∃ k, t.Covers r a first s (length / r.wordSize) (·.WrittenByOther t.id)
      (fun _ x => x.readBy t.id) (t.read r a length) k := by
  obtain ⟨hrange, -⟩ := hresolved.range_le hr hfound
  have hwords : ∀ w, first.word ≤ w → w < first.word + length / r.wordSize →
      (s.control w).Attributed := by
    intro w _ hhigh
    exact hattributed _ s w hfound (by omega)
  obtain ⟨k, hstops⟩ := readWords_stops (t := t) (n := first.segment) hrange hwords #[]
  have hread : t.read r a length =
      ofPass r a first (t.readWords s first.segment first.word (length / r.wordSize) #[]) := by
    simp [read, hundoomed, hrw, resolve_eq_ok_iff.2 ⟨slot, hresolved⟩, hfound]
  rw [hread]
  exact ⟨k, covers_ofPass hfound hstops⟩

/-- A write covers the words up to the first one that another transaction has claimed. -/
theorem write_covers {bytes : List UInt8} (hresolved : t.Resolved r a bytes.length slot first) :
    ∃ k, t.Covers r a first s (bytes.length / r.wordSize) (·.HeldByOther t.id)
      (fun w x => x.writtenBy t.id (part r.wordSize first.word bytes w)) (t.write r a bytes) k := by
  obtain ⟨hrange, hwhole⟩ := hresolved.range_le hr hfound
  obtain ⟨hshaped, hsize⟩ := hr _ _ hfound
  have hwords : ∀ w, first.word ≤ w → w < first.word + bytes.length / r.wordSize →
      (s.control w).Attributed := by
    intro w _ hhigh
    exact hattributed _ s w hfound (by omega)
  have hlen : bytes.length = bytes.length / r.wordSize * s.wordSize := by
    rw [hsize, hwhole]
  obtain ⟨k, hstops⟩ := writeWords_stops (t := t) (n := first.segment) hshaped hrange hwords hlen
  have hwrite : t.write r a bytes = ofPass r a first
      (t.writeWords s first.segment r.wordSize first.word (bytes.length / r.wordSize) bytes) := by
    simp [write, hundoomed, hrw, resolve_eq_ok_iff.2 ⟨slot, hresolved⟩, hfound]
  rw [hsize] at hstops
  rw [hwrite]
  exact ⟨k, covers_ofPass hfound hstops⟩

end Transaction

end TransactionalMemory
