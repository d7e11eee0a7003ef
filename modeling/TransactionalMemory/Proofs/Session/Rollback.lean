import TransactionalMemory.Proofs.Region.Standing
import TransactionalMemory.Proofs.Session.Accounting
import TransactionalMemory.Proofs.Session.Ownership
import TransactionalMemory.Proofs.Session.Reclamation

/-! # An aborted transaction leaves no trace

    What a transaction does before it ends changes what stands in no word. If
    it then ends without a commit, it gives up the words that it has claimed,
    puts the segments that it has freed back into use, and hands those that it
    has allocated to the collector. All else is as it was, above all what the
    other open transactions have claimed, freed and allocated. -/

namespace TransactionalMemory

/-! ## Before the end -/

namespace Transaction

variable {t : Transaction} {r : Region}

theorem stands_readWords (t : Transaction) (s : Segment) (n first count : Nat)
    (soFar : Array UInt8) : s.Stands (t.readWords s n first count soFar).segment := by
  induction count generalizing t s first soFar with
  | zero => exact .refl s
  | succ count ih =>
    have hword := s.stands_readWord t.id first
    rw [readWords]
    split
    next heq => rw [heq] at hword; exact hword
    next heq => rw [heq] at hword; exact hword.trans (ih ..)

theorem stands_writeWords (t : Transaction) (s : Segment) (n wordSize first count : Nat)
    (bytes : List UInt8) :
    s.Stands (t.writeWords s n wordSize first count bytes).segment := by
  induction count generalizing t s first bytes with
  | zero => exact .refl s
  | succ count ih =>
    have hword := s.stands_writeWord t.id first (bytes.take wordSize)
    rw [writeWords]
    split
    next heq => rw [heq] at hword; exact hword
    next heq => rw [heq] at hword; exact hword.trans (ih ..)

theorem stands_ofPass {α : Type} {a : Address} {first : WordRef} {pass : Pass α} {s : Segment}
    (hn : r.segment? first.segment = some s) (h : s.Stands pass.segment) :
    r.Stands (ofPass r a first pass).region := by
  unfold ofPass
  dsimp only
  split
  · exact Region.stands_updateSegment hn h
  · exact Region.stands_updateSegment hn h

theorem stands_read (t : Transaction) (r : Region) (a : Address) (length : Nat) :
    r.Stands (t.read r a length).region := by
  cases t.read_cases r a length with
  | refused doomed heq => rw [heq]; exact .refl r
  | failed undoomed why heq => rw [heq]; exact .refl r
  | shared undoomed readOnly resolved found heq => rw [heq]; exact .refl r
  | passed undoomed readWrite resolved found heq =>
    rw [heq]
    exact stands_ofPass found (t.stands_readWords ..)

theorem stands_write (t : Transaction) (r : Region) (a : Address) (bytes : List UInt8) :
    r.Stands (t.write r a bytes).region := by
  cases t.write_cases r a bytes with
  | refused doomed heq => rw [heq]; exact .refl r
  | failed undoomed why heq => rw [heq]; exact .refl r
  | passed undoomed readWrite resolved found heq =>
    rw [heq]
    exact stands_ofPass found (t.stands_writeWords ..)

/-- A new segment has a number that no word had before. -/
theorem stands_alloc (t : Transaction) (r : Region) (size : Nat) (memory : Bool) :
    r.Stands (t.alloc r size memory).region := by
  cases t.alloc_cases r size memory with
  | refused doomed heq => rw [heq]; exact .refl r
  | failed undoomed why heq => rw [heq]; exact .refl r
  | scarce undoomed readWrite attempt heq =>
    rw [heq]
    obtain ⟨table, -, rfl⟩ := (Region.fails_of_attempt attempt).inv
    exact Region.stands_of_segments_eq rfl
  | @granted _ r' undoomed readWrite whole enough found heq =>
    rw [heq]
    intro ref x hx
    show r'.standing? ref = some x
    obtain ⟨y, hy, rfl⟩ := Option.map_eq_some_iff.1 hx
    obtain ⟨s, hs, -⟩ := Region.stored?_eq_some_iff.1 hy
    have hlt : ref.segment ≠ r.segments.size := by
      intro heq
      rw [heq, Region.segment?, Array.getElem?_eq_none (Nat.le_refl _)] at hs
      cases hs
    rw [Region.standing?, Region.stored?, (Region.grows_of_allocate? found).segment?_eq,
      if_neg hlt]
    exact hx

theorem stands_free (t : Transaction) (r : Region) (a : Address) :
    r.Stands (t.free r a).region := by
  cases t.free_cases r a with
  | refused doomed heq => rw [heq]; exact .refl r
  | failed undoomed why heq => rw [heq]; exact .refl r
  | marked undoomed readWrite freeable live heq =>
    rw [heq]
    exact Region.stands_of_segments_eq rfl

end Transaction

/-- Whether the operation neither ends a transaction nor collects. -/
def Operation.isInner : Operation → Bool
  | .begin _ | .read .. | .write .. | .alloc .. | .free .. | .abort _ => true
  | .finish _ | .abandon _ | .collect => false

namespace Session

variable {s s' : Session} {h k : Handle} {t u : Transaction}

/-- What a transaction does before it ends changes what stands in no word. -/
theorem stands_step (s : Session) {operation : Operation} (hinner : operation.isInner = true) :
    s.region.Stands (s.step operation).2.region := by
  have haccess : ∀ {α : Type} (h : Handle) (op : Transaction → Region → Outcome α),
      (∀ t, s.region.Stands (op t s.region).region) →
        s.region.Stands (s.access h op).2.region := by
    intro α h op hstands
    unfold access
    split
    · exact .refl _
    · exact hstands _
  cases operation with
  | begin readOnly => exact Region.stands_of_segments_eq (s.segments_begin readOnly)
  | read h a length =>
    exact haccess h (fun t r => t.read r a length) fun t => t.stands_read s.region a length
  | write h a bytes =>
    exact haccess h (fun t r => t.write r a bytes) fun t => t.stands_write s.region a bytes
  | alloc h size memory =>
    exact haccess h (fun t r => t.alloc r size memory) fun t =>
      t.stands_alloc s.region size memory
  | free h a => exact haccess h (fun t r => t.free r a) fun t => t.stands_free s.region a
  | abort h => exact Region.stands_of_segments_eq (s.segments_abort h)
  | finish h => cases hinner
  | abandon h => cases hinner
  | collect => cases hinner

end Session

/-- The operation that ends a transaction, with a commit if that is wanted. -/
def Operation.ending (h : Handle) (wanted : Bool) : Operation :=
  if wanted then .finish h else .abandon h

/-! ## The rollback -/

/-- What stands in the words that are left stood in them before. -/
theorem Region.standing?_of_drops {r r' : Region} (h : r.Drops r') {ref : WordRef}
    {x : Copy × List UInt8 × Nat} (hx : r'.standing? ref = some x) : r.standing? ref = some x := by
  unfold standing? stored? at hx ⊢
  rcases h.segments ref.segment with hsame | hnone
  · rwa [hsame] at hx
  · rw [hnone] at hx
    cases hx

namespace SlotTable

theorem Agrees.mem_inUse {t : SlotTable} {held : Nat → Option Nat} {waiting : List Retirement}
    (h : t.Agrees held waiting) (i : Nat) : i ∈ t.inUse ↔ (t.lookup i).isOccupied = true := by
  rw [inUse, Finset.mem_filter, Finset.mem_range]
  exact ⟨And.right, fun hi => ⟨h.lt_next (Slot.ne_vacant_of_isOccupied hi), hi⟩⟩

end SlotTable

/-- The region right after a rollback, before anything is collected. -/
structure Transaction.RolledBack (t : Transaction) (r r' : Region) : Prop where
  /-- What stands in the words has not changed, -/
  standing : ∀ ref, r'.standing? ref = r.standing? ref
  /-- nor has anything else about words that the transaction had not claimed. -/
  unclaimed : ∀ ref, ref ∉ t.touched → r'.stored? ref = r.stored? ref
  /-- The words that it had claimed are free, and nothing is pending in them. -/
  claimed : ∀ ref ∈ t.touched, ∃ x, r'.stored? ref = some x ∧
    x.control.written = false ∧ x.control.accessor = none
  /-- What it had freed is live again. -/
  freed : ∀ i ∈ t.freed, i ∉ t.allocated →
    ∃ n, r.table.lookup i = .freeing n ∧ r'.table.lookup i = .live n
  /-- What it had allocated has left its slot and waits, by itself, to be released. -/
  allocated : ∀ i ∈ t.allocated, ∃ n e, (r.table.lookup i).segment? = some n ∧
    r'.table.lookup i = .vacant ∧ r'.waitingFor i = [e] ∧ e.segment = n ∧ e.linked = false
  others : ∀ i, i ∉ t.freed → i ∉ t.allocated → r'.table.lookup i = r.table.lookup i
  liveSegments : r'.stats.liveSegments + t.allocated.length = r.stats.liveSegments

namespace Transaction

variable {t : Transaction} {r : Region} {wanted : Bool}

/-- A transaction that does not commit is rolled back, and counted. -/
theorem conclude_of_lost (hlost : (t.conclude r wanted).1 = false) :
    ∃ gate aborts, (t.conclude r wanted).2 = { t.rearranged r false with gate, aborts } := by
  unfold conclude at hlost ⊢
  dsimp only at hlost ⊢
  rw [hlost]
  simp only [Bool.false_eq_true, if_false, rollback_eq]
  exact ⟨_, _, rfl⟩

/-- Then it stops pinning its epoch. -/
theorem conclusion_of_lost (hlost : (t.conclude r wanted).1 = false) :
    t.conclusion r false = t.unpin (t.conclude r wanted).2 := by
  unfold conclude at hlost ⊢
  dsimp only at hlost ⊢
  rw [hlost]
  rfl

/-- The words in the log are given up, and the others stay. -/
theorem stored?_conclude (hlost : (t.conclude r wanted).1 = false) (ref : WordRef) :
    (t.conclude r wanted).2.stored? ref =
      if ref ∈ t.touched then (r.stored? ref).map (·.releasedBy t.id) else r.stored? ref := by
  obtain ⟨gate, aborts, heq⟩ := conclude_of_lost hlost
  have hsegments : (t.conclude r wanted).2.segments
      = (r.settleWords t.id false t.touched).segments := by
    rw [heq, (t.rearranges_rearranged r false).rest]
  exact (Region.stored?_congr hsegments ref).trans (r.stored?_settleWords t.id t.touched ref)

/-- What the slots hold after a rollback. -/
theorem lookup_conclude (hlost : (t.conclude r wanted).1 = false) (i : Nat) :
    (t.conclude r wanted).2.table.lookup i =
      if i ∈ t.allocated then .vacant
      else if i ∈ t.freed then (r.table.lookup i).relinked else r.table.lookup i := by
  have hslot := t.lookup_conclusion r false i
  rw [conclusion_of_lost hlost] at hslot
  exact hslot

end Transaction

namespace Session

variable {s s' : Session} {h k : Handle} {t u : Transaction} {wanted : Bool}

section

variable (hs : s.Sound) (ho : s.open? h = some t) (hgives : s.MayGiveUp h)
  (hlost : (t.conclude s.region wanted).1 = false)

include hs ho hgives hlost

/-- A segment that the transaction has allocated leaves its slot and waits. -/
theorem waitingFor_conclude {i : Nat} (hi : i ∈ t.allocated) :
    ∃ n e, (s.region.table.lookup i).segment? = some n ∧
      (t.conclude s.region wanted).2.table.lookup i = .vacant ∧
      (t.conclude s.region wanted).2.waitingFor i = [e] ∧ e.segment = n ∧ e.linked = false := by
  have hdisposes : t.Disposes s.region false := hs.disposes ho fun _ => hgives
  have hvacant : (t.conclude s.region wanted).2.table.lookup i = .vacant := by
    rw [t.lookup_conclude hlost, if_pos hi]
  obtain ⟨n, hn⟩ : ∃ n, (s.region.table.lookup i).segment? = some n := by
    rcases hgives t ho i hi with ⟨n, hn⟩ | ⟨-, n, hn⟩
    · exact ⟨n, by rw [hn]; rfl⟩
    · exact ⟨n, by rw [hn]; rfl⟩
  -- Whatever could be found in the slot can still be found somewhere.
  have hkeeps : (t.conclusion s.region false).Keeps 0 i n :=
    hdisposes.concludes.keeps 0 i n (Nat.zero_le _) (.inl hn)
  have hslotted : (t.conclusion s.region false).Slotted := hdisposes.concludes.slotted
  rw [Transaction.conclusion_of_lost hlost] at hkeeps hslotted
  rcases hkeeps with hheld | ⟨-, x, hx, hslot, hsegment, -⟩
  · exact absurd hheld (by
      show ((t.conclude s.region wanted).2.table.lookup i).segment? ≠ some n
      rw [hvacant]
      nofun)
  · have hmem : x.value ∈ (t.unpin (t.conclude s.region wanted).2).collector.waiting :=
      List.mem_map_of_mem hx
    have hlinked := hslotted.waitingSlot _ hmem
    refine ⟨n, x.value, hn, hvacant, hslot ▸ Region.waitingFor_eq hslotted hmem, hsegment, ?_⟩
    rw [hslot] at hlinked
    have hafter : Slot.vacant = .afterRetire x.value.segment x.value.linked :=
      hvacant.symm.trans hlinked
    rw [Slot.afterRetire] at hafter
    split at hafter
    · cases hafter
    next hunlinked => exact Bool.eq_false_iff.2 hunlinked

/-- As many slots fewer are in use as the transaction has allocated. -/
theorem liveSegments_conclude (ha : s.Accounted) :
    (t.conclude s.region wanted).2.stats.liveSegments + t.allocated.length
      = s.region.stats.liveSegments := by
  have hdisposes : t.Disposes s.region false := hs.disposes ho fun _ => hgives
  have hslotted : (t.conclusion s.region false).Slotted := hdisposes.concludes.slotted
  have hafter : (t.conclusion s.region false).table.occupied.toNat = _ :=
    (accounted_conclusion hs ha ho fun _ => hgives).counted
  rw [Transaction.conclusion_of_lost hlost] at hslotted hafter
  have hoccupied : ∀ i ∈ t.allocated, (s.region.table.lookup i).isOccupied = true := by
    intro i hi
    rcases hgives t ho i hi with ⟨n, hn⟩ | ⟨-, n, hn⟩
    · rw [hn]; rfl
    · rw [hn]; rfl
  have hinUse : (t.conclude s.region wanted).2.table.inUse
      = s.region.table.inUse \ t.allocated.toFinset := by
    ext i
    have hmem : i ∈ (t.conclude s.region wanted).2.table.inUse ↔ _ := hslotted.mem_inUse i
    rw [hmem, Finset.mem_sdiff, hs.slotted.mem_inUse, List.mem_toFinset]
    show ((t.conclude s.region wanted).2.table.lookup i).isOccupied = true ↔ _
    rw [t.lookup_conclude hlost]
    by_cases hi : i ∈ t.allocated
    · simp [hi, Slot.isOccupied]
    · by_cases hif : i ∈ t.freed
      · obtain ⟨n, hn⟩ := hdisposes.freed i hif
        simp [hi, hif, hn, Slot.relinked, Slot.isOccupied]
      · simp [hi, hif]
  have hsub : t.allocated.toFinset ⊆ s.region.table.inUse := by
    intro i hi
    exact (hs.slotted.mem_inUse i).2 (hoccupied i (List.mem_toFinset.1 hi))
  have hcard := Finset.card_sdiff_add_card_eq_card hsub
  rw [← hinUse, List.toFinset_card_of_nodup hdisposes.allocatedOnce] at hcard
  show (t.conclude s.region wanted).2.table.occupied.toNat + _ = s.region.table.occupied.toNat
  rw [ha.counted, SlotTable.weight_one, ← hcard]
  exact congrArg (· + _) (hafter.trans (SlotTable.weight_one _))

/-- A transaction that is open and may give up what it has allocated is rolled
    back, if it does not commit. -/
theorem rolledBack_conclude (ha : s.Accounted) :
    t.RolledBack s.region (t.conclude s.region wanted).2 := by
  have hdisposes : t.Disposes s.region false := hs.disposes ho fun _ => hgives
  have hstored := Transaction.stored?_conclude (r := s.region) hlost
  have hlookup := t.lookup_conclude hlost
  constructor
  case standing =>
    intro ref
    rw [Region.standing?, hstored]
    split
    · rw [Option.map_map]
      exact congrArg (Option.map · _) (funext fun x => x.standing_releasedBy t.id)
    · rfl
  case unclaimed =>
    intro ref href
    rw [hstored, if_neg href]
  case claimed =>
    intro ref href
    -- The transaction is the accessor of the words in its log.
    obtain ⟨c, hc, hid⟩ := hs.cell?_of_touched ho href
    obtain ⟨seg, hseg, hw, rfl⟩ := Region.cell?_eq_some_iff.1 hc
    have hx : s.region.stored? ref = some (seg.stored ref.word) :=
      Region.stored?_eq_some_iff.2 ⟨seg, hseg, hw, rfl⟩
    have hown : (seg.stored ref.word).control.ownedBy t.id = true := beq_iff_eq.2 hid
    rw [hstored, if_pos href, hx, Option.map_some, Stored.releasedBy, if_pos hown]
    exact ⟨_, rfl, rfl, rfl⟩
  case freed =>
    intro i hif hia
    obtain ⟨n, hn⟩ := hdisposes.freed i hif
    refine ⟨n, hn, ?_⟩
    rw [hlookup, if_neg hia, if_pos hif, hn]
    rfl
  case allocated => exact fun i hi => waitingFor_conclude hs ho hgives hlost hi
  case others =>
    intro i hif hia
    rw [hlookup, if_neg hia, if_neg hif]
  case liveSegments => exact liveSegments_conclude hs ho hgives hlost ha

end

/-! ## A transaction that ends without a commit -/

/-- Transaction `h` is abandoned, or a commit is wanted and does not come about. -/
def EndsWithoutCommit (s : Session) (h : Handle) (wanted : Bool) : Prop :=
  wanted = true → (s.finish h).1 = some false

instance (s : Session) (h : Handle) (wanted : Bool) : Decidable (s.EndsWithoutCommit h wanted) :=
  inferInstanceAs (Decidable (wanted = true → (s.finish h).1 = some false))

theorem conclude_of_endsWithoutCommit (ho : s.open? h = some t)
    (hends : s.EndsWithoutCommit h wanted) : (t.conclude s.region wanted).1 = false := by
  cases wanted with
  | true =>
    have hanswer := hends rfl
    unfold finish at hanswer
    rw [ho] at hanswer
    exact Option.some.inj hanswer
  | false => rfl

/-- In an orderly run, whoever ends without a commit may give up what it has allocated. -/
theorem mayGiveUp_of_allows (hallowed : s.Allows (.ending h wanted))
    (hends : s.EndsWithoutCommit h wanted) : s.MayGiveUp h := by
  cases wanted with
  | true => exact hallowed (hends rfl)
  | false => exact hallowed

/-- After its rollback, a transaction leaves its epoch, and may collect. Words
    can be released that way, and no word is changed. -/
theorem standing?_of_step_ending (ho : s.open? h = some t) {ref : WordRef}
    {x : Copy × List UInt8 × Nat}
    (hx : (s.step (.ending h wanted)).2.region.standing? ref = some x) :
    (t.conclude s.region wanted).2.standing? ref = some x := by
  cases wanted with
  | true =>
    have hregion : (s.step (.ending h true)).2.region
        = (t.unpin (t.conclude s.region true).2).collect.2 := by
      simp only [Operation.ending, if_true, step, finish, ho]
      rfl
    rw [hregion] at hx
    exact Region.standing?_of_drops
      (t.unpin (t.conclude s.region true).2).drops_collect hx
  | false =>
    have hregion : (s.step (.ending h false)).2.region
        = t.unpin (t.conclude s.region false).2 := by
      simp only [Operation.ending, Bool.false_eq_true, if_false, step, abandon, ho]
      rfl
    rwa [hregion] at hx

end Session

end TransactionalMemory
