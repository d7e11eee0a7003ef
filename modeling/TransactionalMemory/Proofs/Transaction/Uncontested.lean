import TransactionalMemory.Proofs.Transaction.Outcomes

/-! # Transactions without rivals

    A transaction meets a conflict only at a mark that somebody else has left: a
    word with another accessor, or a slot that another transaction is freeing.
    If there is no such mark, no operation of the transaction fails with a
    conflict, whatever else may be wrong with it. A read-only transaction never
    looks at marks, so it meets no conflict in any region. -/

namespace TransactionalMemory

/-- Nobody but the given transaction has claimed the word, or written to it. -/
structure Cell.Uncontested (c : Cell) (id : TransactionId) : Prop where
  claimed : ∀ u, c.accessor = some u → u = id
  written : c.pending ≠ none → c.accessor ≠ none

namespace Segment

variable {s : Segment} {id : TransactionId} {w : Nat}

/-- The accessor of a written word without rivals is the transaction itself. -/
theorem ownedBy_of_uncontested (h : (s.cell w).Uncontested id)
    (hwritten : (s.control w).written = true) : (s.control w).ownedBy id = true := by
  have hpending : (s.cell w).pending ≠ none := by simp [cell, hwritten]
  obtain ⟨u, hu⟩ := Option.ne_none_iff_exists'.1 (h.written hpending)
  rw [h.claimed u hu] at hu
  rw [Control.ownedBy, beq_iff_eq]
  exact hu

/-- A word without rivals can be read. -/
theorem readWord_of_uncontested (h : (s.cell w).Uncontested id) :
    ∃ g bytes, (s.readWord id w).1 = some (g, bytes) := by
  unfold readWord
  by_cases hwritten : (s.control w).written = true
  · simp [hwritten, ownedBy_of_uncontested h hwritten]
  · cases haccessor : (s.control w).accessor <;> simp [hwritten, haccessor]

/-- A word without rivals can be written. -/
theorem writeWord_of_uncontested (h : (s.cell w).Uncontested id) (bytes : List UInt8) :
    ∃ g, (s.writeWord id w bytes).1 = some g := by
  unfold writeWord
  by_cases hwritten : (s.control w).written = true
  · simp [hwritten, ownedBy_of_uncontested h hwritten]
  · cases haccessor : (s.control w).accessor with
    | none => simp [hwritten, haccessor]
    | some owner =>
      have howner : owner = id := h.claimed owner haccessor
      simp [hwritten, haccessor, howner]

end Segment

namespace Transaction

variable {t : Transaction} {r : Region} {a : Address} {failure : Failure}

/-- Nobody but the transaction has left a mark in the region. -/
structure Uncontested (t : Transaction) (r : Region) : Prop where
  words : ∀ ref c, r.cell? ref = some c → c.Uncontested t.id
  slots : ∀ i n, r.table.lookup i = .freeing n → i ∈ t.freed

/-! ## Passes -/

/-- A pass of reads over words without rivals reaches the end of its range. -/
theorem readWords_of_uncontested {s : Segment} (n first count : Nat)
    (hrange : first + count ≤ s.words)
    (hwords : ∀ w ∈ List.range' first count, (s.cell w).Uncontested t.id)
    (soFar : Array UInt8) :
    ∃ bytes, (t.readWords s n first count soFar).value = .ok bytes := by
  induction count generalizing t s first soFar with
  | zero => exact ⟨soFar.toList, rfl⟩
  | succ count ih =>
    obtain ⟨g, bytes, hread⟩ :=
      Segment.readWord_of_uncontested (hwords first (by simp [List.mem_range'_1]))
    obtain ⟨-, -, hbecomes⟩ := Segment.readWord_granted (by omega) hread
    rcases hresult : s.readWord t.id first with ⟨value, s'⟩
    rw [hresult] at hread hbecomes
    subst hread
    have hlength : s'.words = s.words := congrArg (fun l => l.2.2.2) hbecomes.layout
    simp only [readWords, hresult]
    refine ih (first + 1) (by omega) (fun w hw => ?_) _
    -- The words that are still to be read are as they were.
    obtain ⟨hfirst, hlast⟩ := List.mem_range'_1.1 hw
    rw [id_log, hbecomes.others w (by omega)]
    exact hwords w (List.mem_range'_1.2 ⟨by omega, by omega⟩)

/-- A pass of writes over words without rivals reaches the end of its range. -/
theorem writeWords_of_uncontested {s : Segment} (hs : s.Shaped) (n first count : Nat)
    (hrange : first + count ≤ s.words)
    (hwords : ∀ w ∈ List.range' first count, (s.cell w).Uncontested t.id)
    {bytes : List UInt8} (hlength : bytes.length = count * s.wordSize) :
    (t.writeWords s n s.wordSize first count bytes).value = .ok () := by
  induction count generalizing t s first bytes with
  | zero => rfl
  | succ count ih =>
    have hpart : (bytes.take s.wordSize).length = s.wordSize := by
      rw [List.length_take, hlength, Nat.succ_mul]
      omega
    have hrest : (bytes.drop s.wordSize).length = count * s.wordSize := by
      rw [List.length_drop, hlength, Nat.succ_mul]
      omega
    obtain ⟨g, hwrite⟩ := Segment.writeWord_of_uncontested
      (hwords first (by simp [List.mem_range'_1])) (bytes.take s.wordSize)
    obtain ⟨-, -, hbecomes⟩ := Segment.writeWord_granted hs (by omega) hpart hwrite
    rcases hresult : s.writeWord t.id first (bytes.take s.wordSize) with ⟨value, s'⟩
    rw [hresult] at hwrite hbecomes
    subst hwrite
    have hlayout := hbecomes.layout
    simp only [Segment.layout, Prod.mk.injEq] at hlayout
    obtain ⟨-, -, hsize, hwordCount⟩ := hlayout
    simp only [writeWords, hresult]
    rw [← hsize] at hrest ⊢
    refine ih (hbecomes.shaped hs) (first + 1) (by rw [hwordCount]; omega) (fun w hw => ?_) hrest
    obtain ⟨hfirst, hlast⟩ := List.mem_range'_1.1 hw
    rw [id_log, hbecomes.others w (by omega)]
    exact hwords w (List.mem_range'_1.2 ⟨by omega, by omega⟩)

/-! ## Operations -/

/-- An address leads a transaction without rivals to a segment, or is at fault itself. -/
theorem resolve_of_uncontested {length : Nat} (h : t.isReadOnly = false → t.Uncontested r)
    (hfailure : t.resolve r a length = .error failure) (b : Address) :
    failure ≠ .conflict b := by
  rintro rfl
  obtain ⟨hrw, -, slot, n, -, hlookup, hunfreed⟩ := resolve_conflict hfailure
  -- Only the transaction itself can be freeing the segment.
  exact hunfreed ((h hrw).slots slot n hlookup)

variable (hr : r.Shaped) (h : t.isReadOnly = false → t.Uncontested r)

include hr h

/-- The words of a range of a transaction without rivals have none either. -/
theorem uncontested_of_resolved {slot length : Nat} {first : WordRef} {s : Segment}
    (hrw : t.isReadOnly = false) (hresolved : t.Resolved r a length slot first)
    (hfound : r.segment? first.segment = some s) :
    ∀ w ∈ List.range' first.word (length / r.wordSize), (s.cell w).Uncontested t.id := by
  intro w hw
  obtain ⟨hrange, -⟩ := hresolved.range_le hr hfound
  obtain ⟨-, hlast⟩ := List.mem_range'_1.1 hw
  have hw : w < s.words := by omega
  exact (h hrw).words ⟨first.segment, w⟩ _ (Region.cell?_eq_some_iff.2 ⟨s, hfound, hw, rfl⟩)

theorem read_not_conflict {length : Nat} (hfailure : (t.read r a length).value = .error failure)
    (b : Address) : failure ≠ .conflict b := by
  cases t.read_cases r a length with
  | refused doomed heq =>
    rw [heq] at hfailure
    cases hfailure
    nofun
  | failed undoomed why heq =>
    rw [heq] at hfailure
    cases hfailure
    rcases why with hresolve | ⟨-, -, -, rfl⟩
    · exact resolve_of_uncontested h hresolve b
    · nofun
  | shared undoomed readOnly resolved found heq => rw [heq] at hfailure; cases hfailure
  | passed undoomed readWrite resolved found heq =>
    obtain ⟨hrange, -⟩ := resolved.range_le hr found
    obtain ⟨bytes, hbytes⟩ := readWords_of_uncontested _ _ _ hrange
      (uncontested_of_resolved hr h readWrite resolved found) #[]
    rw [heq, ofPass, hbytes] at hfailure
    cases hfailure

theorem write_not_conflict {bytes : List UInt8}
    (hfailure : (t.write r a bytes).value = .error failure) (b : Address) :
    failure ≠ .conflict b := by
  cases t.write_cases r a bytes with
  | refused doomed heq =>
    rw [heq] at hfailure
    cases hfailure
    nofun
  | failed undoomed why heq =>
    rw [heq] at hfailure
    cases hfailure
    rcases why with ⟨-, rfl⟩ | hresolve | ⟨-, -, -, rfl⟩
    · nofun
    · exact resolve_of_uncontested h hresolve b
    · nofun
  | @passed slot first s undoomed readWrite resolved found heq =>
    obtain ⟨hrange, hwhole⟩ := resolved.range_le hr found
    obtain ⟨hshaped, hsize⟩ := hr _ _ found
    have hpass := writeWords_of_uncontested hshaped first.segment _ _ hrange
      (uncontested_of_resolved hr h readWrite resolved found) (by rw [hsize]; exact hwhole.symm)
    rw [hsize] at hpass
    rw [heq, ofPass, hpass] at hfailure
    cases hfailure

omit hr in
theorem free_not_conflict (hfailure : (t.free r a).value = .error failure) (b : Address) :
    failure ≠ .conflict b := by
  cases t.free_cases r a with
  | refused doomed heq =>
    rw [heq] at hfailure
    cases hfailure
    nofun
  | failed undoomed why heq =>
    rw [heq] at hfailure
    cases hfailure
    rcases why with ⟨-, rfl⟩ | ⟨-, rfl⟩ | ⟨slot, -, ⟨n, hlookup, rfl⟩ | ⟨-, rfl⟩⟩
    · nofun
    · nofun
    · -- The one that is freeing the segment is the transaction itself.
      by_cases hrw : t.isReadOnly = false
      · rw [if_pos ((h hrw).slots slot n hlookup)]
        nofun
      · simp [free, undoomed, hrw, fail] at heq
        split at heq <;> cases heq
    · nofun
  | marked undoomed readWrite freeable live heq => rw [heq] at hfailure; cases hfailure

omit hr h in
theorem alloc_not_conflict {size : Nat} {memory : Bool}
    (hfailure : (t.alloc r size memory).value = .error failure) (b : Address) :
    failure ≠ .conflict b := by
  cases t.alloc_cases r size memory with
  | refused doomed heq =>
    rw [heq] at hfailure
    cases hfailure
    nofun
  | failed undoomed why heq =>
    rw [heq] at hfailure
    cases hfailure
    rcases why with ⟨-, rfl⟩ | ⟨-, -, rfl⟩
    · nofun
    · nofun
  | scarce undoomed readWrite attempt heq =>
    rw [heq] at hfailure
    cases hfailure
    nofun
  | granted undoomed readWrite whole enough found heq =>
    rw [heq] at hfailure
    cases hfailure

end Transaction

end TransactionalMemory
