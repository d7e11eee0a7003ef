import TransactionalMemory.Proofs.Region.Words
import TransactionalMemory.Transaction.Access

/-! # Passes as steps on words

    A pass over a range does one word after the other. `WordStep` says what one
    granted access does to the transaction and to the region, and a pass is a
    chain of such steps, whether it reaches the end of the range or not.

    A range has its bytes spread over its words; a pass that reaches its end
    has accessed each word with its own part of the bytes. -/

namespace TransactionalMemory

/-- One granted access of a read-write transaction to a word. -/
inductive Access where
  | read (ref : WordRef) (bytes : List UInt8)
  | write (ref : WordRef) (bytes : List UInt8)
  deriving DecidableEq

def Access.ref : Access → WordRef
  | read ref _ | write ref _ => ref

/-- The words of a range from `ref` on, each with its part of the bytes. -/
def WordRef.spread (wordSize : Nat) :
    (ref : WordRef) → (count : Nat) → List UInt8 → List (WordRef × List UInt8)
  | _, 0, _ => []
  | ref, count + 1, bytes =>
    (ref, bytes.take wordSize) ::
      spread wordSize ⟨ref.segment, ref.word + 1⟩ count (bytes.drop wordSize)

namespace Transaction

variable {t t' : Transaction} {r r' : Region}

@[simp] theorem mode_log (t : Transaction) (ref : WordRef) (g : Grant) :
    (t.log ref g).mode = t.mode := by cases g <;> rfl

@[simp] theorem id_log (t : Transaction) (ref : WordRef) (g : Grant) :
    (t.log ref g).id = t.id := by cases g <;> rfl

@[simp] theorem epoch_log (t : Transaction) (ref : WordRef) (g : Grant) :
    (t.log ref g).epoch = t.epoch := by cases g <;> rfl

@[simp] theorem doomed_log (t : Transaction) (ref : WordRef) (g : Grant) :
    (t.log ref g).doomed = t.doomed := by cases g <;> rfl

@[simp] theorem allocated_log (t : Transaction) (ref : WordRef) (g : Grant) :
    (t.log ref g).allocated = t.allocated := by cases g <;> rfl

@[simp] theorem freed_log (t : Transaction) (ref : WordRef) (g : Grant) :
    (t.log ref g).freed = t.freed := by cases g <;> rfl

/-- What is kept by noting an access is kept by a pass of reads, -/
theorem keeps_readWords {P : Transaction → Prop} (hlog : ∀ u ref g, P u → P (u.log ref g))
    {t : Transaction} (h : P t) (s : Segment) (n first count : Nat) (soFar : Array UInt8) :
    P (t.readWords s n first count soFar).transaction := by
  induction count generalizing t s first soFar with
  | zero => exact h
  | succ count ih =>
    rw [readWords]
    split
    · exact h
    next => exact ih (hlog _ _ _ h) ..

/-- and by a pass of writes. -/
theorem keeps_writeWords {P : Transaction → Prop} (hlog : ∀ u ref g, P u → P (u.log ref g))
    {t : Transaction} (h : P t) (s : Segment) (n wordSize first count : Nat)
    (bytes : List UInt8) : P (t.writeWords s n wordSize first count bytes).transaction := by
  induction count generalizing t s first bytes with
  | zero => exact h
  | succ count ih =>
    rw [writeWords]
    split
    · exact h
    next => exact ih (hlog _ _ _ h) ..

/-- What one granted access does. -/
inductive WordStep (t : Transaction) (r : Region) : Access → Transaction → Region → Prop where
  | read {ref : WordRef} {c : Cell} {g : Grant} {r' : Region} (cell : r.cell? ref = some c)
      (grants : c.Grants t.id g) (becomes : r.Becomes r' ref (c.granted t.id g)) :
      WordStep t r (.read ref c.latest) (t.log ref g) r'
  | write {ref : WordRef} {c : Cell} {g : Grant} {bytes : List UInt8} {r' : Region}
      (cell : r.cell? ref = some c) (grants : c.Grants t.id g)
      (exclusive : ∀ seq, g ≠ .observed seq) (becomes : r.Becomes r' ref (c.wrote t.id bytes)) :
      WordStep t r (.write ref bytes) (t.log ref g) r'

/-- A chain of granted accesses, the first one first. -/
inductive WordSteps : Transaction → Region → List Access → Transaction → Region → Prop where
  | nil {t : Transaction} {r : Region} : WordSteps t r [] t r
  | cons {t t' t'' : Transaction} {r r' r'' : Region} {a : Access} {rest : List Access}
      (first : WordStep t r a t' r') (after : WordSteps t' r' rest t'' r'') :
      WordSteps t r (a :: rest) t'' r''

/-- What every granted access has in common. Only the cell of the word changes,
    its committed value and its commit count stay, and so does the pending write
    of every other transaction. An observed access changes nothing at all, and
    after any other one the transaction is the accessor. -/
theorem WordStep.inv {a : Access} (h : t.WordStep r a t' r') :
    ∃ c c' g, r.cell? a.ref = some c ∧ r.Becomes r' a.ref c' ∧ c.Grants t.id g ∧
      t' = t.log a.ref g ∧ c'.value = c.value ∧ c'.seq = c.seq ∧
      ((∃ seq, g = .observed seq ∧ c' = c) ∨
        ((g = .claimed ∨ g = .owned) ∧ c'.accessor = some t.id)) ∧
      (∀ u, u ≠ t.id → c'.pendingOf u = c.pendingOf u) := by
  cases h with
  | @read ref c g r' cell grants becomes =>
    refine ⟨c, _, g, cell, becomes, grants, rfl, c.value_granted .., c.seq_granted .., ?_, ?_⟩
    · cases g with
      | claimed => exact .inr ⟨.inl rfl, rfl⟩
      | owned => exact .inr ⟨.inr rfl, grants⟩
      | observed seq => exact .inl ⟨seq, rfl, rfl⟩
    · exact fun u _ => Cell.pendingOf_granted grants u
  | @write ref c g bytes r' cell grants exclusive becomes =>
    have hg : (g = .claimed ∨ g = .owned) ∧ (c.accessor = none ∨ c.accessor = some t.id) := by
      cases g with
      | claimed => exact ⟨.inl rfl, .inl grants.1⟩
      | owned => exact ⟨.inr rfl, .inr grants⟩
      | observed seq => exact absurd rfl (exclusive seq)
    exact ⟨c, _, g, cell, becomes, grants, rfl, rfl, rfl, .inr ⟨hg.1, rfl⟩,
      fun u hu => Cell.pendingOf_wrote_ne bytes hg.2 hu⟩

theorem mem_touched_log {ref other : WordRef} (g : Grant) (h : other ∈ t.touched) :
    other ∈ (t.log ref g).touched := by
  cases g with
  | claimed => exact List.mem_cons_of_mem _ h
  | owned => exact h
  | observed seq => exact h

namespace WordStep

variable {a : Access}

/-- Of every word the committed value, the commit count and the writes that are
    pending for others stay. -/
theorem cell_before (h : t.WordStep r a t' r') {ref : WordRef} {c' : Cell}
    (hc' : r'.cell? ref = some c') :
    ∃ c, r.cell? ref = some c ∧ c'.value = c.value ∧ c'.seq = c.seq ∧
      ∀ u, u ≠ t.id → c'.pendingOf u = c.pendingOf u := by
  obtain ⟨c, c₁, g, hc, hbecomes, -, -, hvalue, hseq, -, hpending⟩ := h.inv
  by_cases heq : ref = a.ref
  · subst heq
    rw [hbecomes.self] at hc'
    cases hc'
    exact ⟨c, hc, hvalue, hseq, hpending⟩
  · exact ⟨c', (hbecomes.others ref heq).symm.trans hc', rfl, rfl, fun _ _ => rfl⟩

/-- Whoever is the accessor of a word goes on being it. -/
theorem accessor_after (h : t.WordStep r a t' r') {ref : WordRef} {c : Cell} {id : TransactionId}
    (hc : r.cell? ref = some c) (hid : c.accessor = some id) :
    ∃ c', r'.cell? ref = some c' ∧ c'.accessor = some id := by
  obtain ⟨c₀, c₁, g, hc₀, hbecomes, hgrants, -, -, -, hcell, -⟩ := h.inv
  by_cases heq : ref = a.ref
  · subst heq
    cases hc.symm.trans hc₀
    refine ⟨c₁, hbecomes.self, ?_⟩
    rcases hcell with ⟨seq, -, rfl⟩ | ⟨rfl | rfl, hown⟩
    · exact hid
    · -- A word is only claimed if it has no accessor.
      rw [hgrants.1] at hid
      cases hid
    · exact hown.trans ((Eq.symm hgrants).trans hid)
  · exact ⟨c, (hbecomes.others ref heq).trans hc, hid⟩

/-- Whoever is the accessor of a word afterwards was it before, or is the one
    that has just claimed the word. -/
theorem accessor_before (h : t.WordStep r a t' r') {ref : WordRef} {c' : Cell}
    {id : TransactionId} (hc' : r'.cell? ref = some c') (hid : c'.accessor = some id) :
    (∃ c, r.cell? ref = some c ∧ c.accessor = some id) ∨ (id = t.id ∧ ref ∈ t'.touched) := by
  obtain ⟨c, c₁, g, hc, hbecomes, hgrants, rfl, -, -, hcell, -⟩ := h.inv
  by_cases heq : ref = a.ref
  · subst heq
    cases hc'.symm.trans hbecomes.self
    rcases hcell with ⟨seq, -, rfl⟩ | ⟨rfl | rfl, hown⟩
    · exact .inl ⟨c', hc, hid⟩
    · exact .inr ⟨(Option.some.inj (hown.symm.trans hid)).symm, List.mem_cons_self⟩
    · exact .inl ⟨c, hc, (Eq.trans hgrants hown.symm).trans hid⟩
  · exact .inl ⟨c', (hbecomes.others ref heq).symm.trans hc', hid⟩

/-- A word that is new in the log of claims has the transaction as its accessor. -/
theorem touched_before (h : t.WordStep r a t' r') {ref : WordRef} (href : ref ∈ t'.touched) :
    ref ∈ t.touched ∨ ∃ c', r'.cell? ref = some c' ∧ c'.accessor = some t.id := by
  obtain ⟨c, c', g, hc, hbecomes, hgrants, rfl, -, -, hcell, -⟩ := h.inv
  cases g with
  | claimed =>
    rcases List.mem_cons.1 href with rfl | hold
    · rcases hcell with ⟨_, hg, -⟩ | ⟨-, hid⟩
      · cases hg
      · exact .inr ⟨c', hbecomes.self, hid⟩
    · exact .inl hold
  | owned => exact .inl href
  | observed seq => exact .inl href

/-- No word without an accessor gets a pending write. -/
theorem pending_after (h : t.WordStep r a t' r')
    (hbefore : ∀ ref c, r.cell? ref = some c → c.pending ≠ none → c.accessor ≠ none)
    {ref : WordRef} {c' : Cell} (hc' : r'.cell? ref = some c') (hpending : c'.pending ≠ none) :
    c'.accessor ≠ none := by
  obtain ⟨c, c₁, g, hc, hbecomes, -, -, -, -, hcell, -⟩ := h.inv
  by_cases heq : ref = a.ref
  · subst heq
    cases hc'.symm.trans hbecomes.self
    rcases hcell with ⟨seq, -, rfl⟩ | ⟨-, hid⟩
    · exact hbefore _ _ hc hpending
    · rw [hid]
      exact Option.some_ne_none _
  · exact hbefore ref c' ((hbecomes.others ref heq).symm.trans hc') hpending

end WordStep

/-- An access leaves pending for its transaction what it wrote, and a read what
    was pending before. -/
theorem WordStep.pendingOf_self {a : Access} (h : t.WordStep r a t' r') {c c' : Cell}
    (hc : r.cell? a.ref = some c) (hc' : r'.cell? a.ref = some c') :
    c'.pendingOf t.id =
      match a with
      | .read _ _ => c.pendingOf t.id
      | .write _ bytes => some bytes := by
  cases h with
  | read cell grants becomes =>
    cases hc.symm.trans cell
    cases hc'.symm.trans becomes.self
    exact Cell.pendingOf_granted grants t.id
  | write cell grants exclusive becomes =>
    cases hc'.symm.trans becomes.self
    exact Cell.pendingOf_wrote_self ..

/-- The value that the accessor of a word sees fills the word. -/
theorem length_latest (hr : r.Shaped) {ref : WordRef} {c : Cell} (hc : r.cell? ref = some c) :
    c.latest.length = r.wordSize := by
  obtain ⟨s, hs, hw, rfl⟩ := Region.cell?_eq_some_iff.1 hc
  obtain ⟨hshaped, hsize⟩ := hr _ _ hs
  unfold Cell.latest Segment.cell Segment.committedBytes
  rw [← hsize]
  by_cases hwritten : (s.control ref.word).written = true
  · simpa [hwritten] using hshaped.length_load _ hw
  · simpa [hwritten] using hshaped.length_load _ hw

/-! ## Reading a range -/

/-- A pass of reads is a chain of steps. If it reaches the end of the range, it
    has read every word of it, and has put what it read behind what it had. -/
theorem readWords_steps {n : Nat} {s : Segment} (hr : r.Shaped) (hn : r.segment? n = some s)
    (first count : Nat) (hrange : first + count ≤ s.words) (soFar : Array UInt8) :
    ∃ accesses,
      WordSteps t r accesses (t.readWords s n first count soFar).transaction
        (r.updateSegment n fun _ => (t.readWords s n first count soFar).segment) ∧
      (∀ a ∈ accesses, a.ref.segment = n) ∧
      ∀ bytes, (t.readWords s n first count soFar).value = .ok bytes →
        ∃ read, bytes = soFar.toList ++ read ∧ read.length = count * r.wordSize ∧
          accesses = ((WordRef.spread r.wordSize ⟨n, first⟩ count read).map
            fun (ref, part) => .read ref part) := by
  induction count generalizing t r s first soFar with
  | zero =>
    have hsame : (r.updateSegment n fun _ => s) = r := Region.updateSegment_const_self hn
    refine ⟨[], ?_, (fun _ ha => nomatch ha),
      fun bytes hvalue => ⟨[], ?_, (Nat.zero_mul _).symm, rfl⟩⟩
    · simp only [readWords, hsame]
      exact .nil
    · simp only [readWords, Except.ok.injEq] at hvalue
      simp [hvalue]
  | succ count ih =>
    have hw : first < s.words := by omega
    rcases hread : s.readWord t.id first with ⟨_ | ⟨g, bytes⟩, s'⟩
    · -- The word is in conflict: the pass ends before it.
      have hs' : s' = s := by
        have := Segment.readWord_refused (by rw [hread] : (s.readWord t.id first).1 = none)
        rwa [hread] at this
      have hpass : t.readWords s n first (count + 1) soFar = ⟨.error first, t, s⟩ := by
        simp only [readWords, hread, hs']
      rw [hpass, Region.updateSegment_const_self hn]
      exact ⟨[], .nil, (fun _ ha => nomatch ha), fun _ hvalue => nomatch hvalue⟩
    · -- One step for this word; the rest of the pass starts from what it leaves.
      obtain ⟨hgrants, hlatest, hbecomes⟩ :=
        Segment.readWord_granted hw (by rw [hread] : (s.readWord t.id first).1 = some (g, bytes))
      rw [hread] at hbecomes
      have hcell : r.cell? ⟨n, first⟩ = some (s.cell first) :=
        Region.cell?_eq_some_iff.2 ⟨s, hn, hw, rfl⟩
      have hregion := Region.becomes_of_segment hn hw hbecomes
      have hlength := length_latest hr hcell
      have hn' : (r.updateSegment n fun _ => s').segment? n = some s' := by
        rw [Region.segment?_updateSegment_self, hn]; rfl
      have hwords : s'.words = s.words := congrArg (fun l => l.2.2.2) hbecomes.layout
      obtain ⟨accesses, hsteps, hsegment, hend⟩ := ih (t := t.log ⟨n, first⟩ g)
        (hregion.shaped hr) hn' (first + 1) (by omega) (soFar ++ bytes)
      have hpass : t.readWords s n first (count + 1) soFar
          = (t.log ⟨n, first⟩ g).readWords s' n (first + 1) count (soFar ++ bytes) := by
        simp only [readWords, hread]
      rw [Region.updateSegment_const_const] at hsteps
      rw [hpass]
      refine ⟨.read ⟨n, first⟩ (s.cell first).latest :: accesses,
        .cons (.read hcell hgrants hregion) hsteps, ?_, ?_⟩
      · intro a ha
        rcases List.mem_cons.1 ha with rfl | ha
        · rfl
        · exact hsegment a ha
      · intro all hvalue
        obtain ⟨read, rfl, hlen, haccesses⟩ := hend all hvalue
        rw [Region.wordSize_updateSegment] at hlen haccesses
        refine ⟨bytes ++ read, ?_, ?_, ?_⟩
        · simp
        · rw [List.length_append, hlen, hlatest, hlength, Nat.succ_mul, Nat.add_comm]
        · rw [haccesses, WordRef.spread, List.map_cons, hlatest,
            List.take_left' hlength, List.drop_left' hlength]

/-- What a pass of reads that reaches its end returns: of every word what the
    transaction itself has pending there, else the committed value. -/
theorem readWords_value {n : Nat} {s : Segment} (first count : Nat)
    (hrange : first + count ≤ s.words) (soFar : Array UInt8) {bytes : List UInt8}
    (hvalue : (t.readWords s n first count soFar).value = .ok bytes) :
    bytes = soFar.toList ++ (List.range' first count).flatMap fun w =>
      ((s.cell w).pendingOf t.id).getD (s.committedBytes w) := by
  induction count generalizing t s first soFar with
  | zero =>
    simp only [readWords, Except.ok.injEq] at hvalue
    simp [hvalue]
  | succ count ih =>
    have hw : first < s.words := by omega
    rcases hread : s.readWord t.id first with ⟨_ | ⟨g, part⟩, s'⟩
    · simp only [readWords, hread] at hvalue
      cases hvalue
    · obtain ⟨hgrants, hlatest, hbecomes⟩ :=
        Segment.readWord_granted hw (by rw [hread] : (s.readWord t.id first).1 = some (g, part))
      rw [hread] at hbecomes
      have hwords : s'.words = s.words := congrArg (fun l => l.2.2.2) hbecomes.layout
      simp only [readWords, hread] at hvalue
      have hrest := ih (first + 1) (by omega) (soFar ++ part) hvalue
      -- The words that are still to be read are as they were.
      have hsame : ∀ w ∈ List.range' (first + 1) count,
          ((s'.cell w).pendingOf (t.log ⟨n, first⟩ g).id).getD (s'.committedBytes w)
            = ((s.cell w).pendingOf t.id).getD (s.committedBytes w) := by
        intro w hmem
        have hcell : s'.cell w = s.cell w :=
          hbecomes.others w (Nat.ne_of_gt (List.mem_range'_1.1 hmem).1)
        rw [id_log, hcell, show s'.committedBytes w = s.committedBytes w from
          congrArg Cell.value hcell]
      rw [hrest, List.range'_succ, List.flatMap_cons, hlatest, Cell.latest_eq_of_grants hgrants,
        List.flatMap_def, List.map_congr_left hsame, ← List.flatMap_def]
      simp [Segment.cell]

/-! ## Writing a range -/

/-- A pass of writes is a chain of steps. If it reaches the end of the range, it
    has written every word of it. -/
theorem writeWords_steps {n : Nat} {s : Segment} (hr : r.Shaped) (hn : r.segment? n = some s)
    (first count : Nat) (hrange : first + count ≤ s.words) (bytes : List UInt8)
    (hlen : bytes.length = count * r.wordSize) :
    ∃ accesses,
      WordSteps t r accesses (t.writeWords s n r.wordSize first count bytes).transaction
        (r.updateSegment n fun _ => (t.writeWords s n r.wordSize first count bytes).segment) ∧
      (∀ a ∈ accesses, a.ref.segment = n) ∧
      ((t.writeWords s n r.wordSize first count bytes).value = .ok () →
        accesses = ((WordRef.spread r.wordSize ⟨n, first⟩ count bytes).map
          fun (ref, part) => .write ref part)) := by
  induction count generalizing t r s first bytes with
  | zero =>
    have hsame : (r.updateSegment n fun _ => s) = r := Region.updateSegment_const_self hn
    refine ⟨[], ?_, (fun _ ha => nomatch ha), fun _ => rfl⟩
    simp only [writeWords, hsame]
    exact .nil
  | succ count ih =>
    have hw : first < s.words := by omega
    have hpart : (bytes.take r.wordSize).length = s.wordSize := by
      rw [List.length_take, hlen, (hr n s hn).2, Nat.succ_mul]
      omega
    rcases hwrite : s.writeWord t.id first (bytes.take r.wordSize) with ⟨_ | g, s'⟩
    · -- The word is in conflict: the pass ends before it.
      have hs' : s' = s := by
        have := Segment.writeWord_refused
          (by rw [hwrite] : (s.writeWord t.id first (bytes.take r.wordSize)).1 = none)
        rwa [hwrite] at this
      have hpass : t.writeWords s n r.wordSize first (count + 1) bytes = ⟨.error first, t, s⟩ := by
        simp only [writeWords, hwrite, hs']
      rw [hpass, Region.updateSegment_const_self hn]
      exact ⟨[], .nil, (fun _ ha => nomatch ha), fun hvalue => nomatch hvalue⟩
    · obtain ⟨hgrants, hexclusive, hbecomes⟩ := Segment.writeWord_granted (hr n s hn).1 hw hpart
        (by rw [hwrite] : (s.writeWord t.id first (bytes.take r.wordSize)).1 = some g)
      rw [hwrite] at hbecomes
      have hcell : r.cell? ⟨n, first⟩ = some (s.cell first) :=
        Region.cell?_eq_some_iff.2 ⟨s, hn, hw, rfl⟩
      have hregion := Region.becomes_of_segment hn hw hbecomes
      have hn' : (r.updateSegment n fun _ => s').segment? n = some s' := by
        rw [Region.segment?_updateSegment_self, hn]; rfl
      have hwords : s'.words = s.words := congrArg (fun l => l.2.2.2) hbecomes.layout
      obtain ⟨accesses, hsteps, hsegment, hend⟩ := ih (t := t.log ⟨n, first⟩ g)
        (hregion.shaped hr) hn' (first + 1) (by omega) (bytes.drop r.wordSize)
        (by rw [List.length_drop, hlen, Region.wordSize_updateSegment, Nat.succ_mul]; omega)
      have hpass : t.writeWords s n r.wordSize first (count + 1) bytes
          = (t.log ⟨n, first⟩ g).writeWords s' n r.wordSize (first + 1) count
              (bytes.drop r.wordSize) := by
        simp only [writeWords, hwrite]
      rw [Region.updateSegment_const_const, Region.wordSize_updateSegment] at hsteps
      rw [Region.wordSize_updateSegment] at hend
      rw [hpass]
      refine ⟨.write ⟨n, first⟩ (bytes.take r.wordSize) :: accesses,
        .cons (.write hcell hgrants hexclusive hregion) hsteps, ?_, ?_⟩
      · intro a ha
        rcases List.mem_cons.1 ha with rfl | ha
        · rfl
        · exact hsegment a ha
      · intro hvalue
        rw [hend hvalue, WordRef.spread, List.map_cons]

end Transaction

end TransactionalMemory
