import TransactionalMemory.Proofs.Region.Backing
import TransactionalMemory.Transaction.Finish

/-! # The end of a transaction, as a whole

    The end of a transaction settles the words that it claimed, goes through
    the slots that it freed and, unless it commits, through those that it
    allocated, and then stops pinning its epoch. `Concludes` states what that
    comes to, whatever the order of the logs. -/

namespace TransactionalMemory

namespace Region

variable {r r' : Region}

theorem Slotted.of_sameButWords (h : r.SameButWords r') (hs : r.Slotted) : r'.Slotted := by
  unfold Slotted
  rw [h.table_eq, h.collector_eq]
  exact SlotTable.Agrees.congrHeld hs h.slotOf?_eq

theorem Keeps.congr {e i n : Nat} (htable : r'.table = r.table)
    (hentries : r'.collector.entries = r.collector.entries) (h : r.Keeps e i n) :
    r'.Keeps e i n := by
  unfold Keeps
  rw [htable, hentries]
  exact h

theorem Holds.congr {e i n : Nat} (htable : r'.table = r.table)
    (hentries : r'.collector.entries = r.collector.entries) (h : r.Holds e i n) :
    r'.Holds e i n := by
  unfold Holds
  rw [htable, hentries]
  exact h

theorem cell?_congr (h : r'.segments = r.segments) (ref : WordRef) :
    r'.cell? ref = r.cell? ref := by
  unfold cell? segment?
  rw [h]

theorem Shaped.congr (hsegments : r'.segments = r.segments) (hsettings : r'.settings = r.settings)
    (h : r.Shaped) : r'.Shaped := by
  unfold Shaped segment? wordSize
  rw [hsegments, hsettings]
  exact h

end Region

namespace Transaction

variable {t : Transaction} {r r' : Region} {committed : Bool}

/-- The region after the end of a transaction, all but the final collection. -/
def conclusion (t : Transaction) (r : Region) (committed : Bool) : Region :=
  let r := if committed then t.commit r else t.rollback r
  let r := { r with gate := r.gate.leave t.isReadOnly }
  t.unpin
    (if committed then { r with commits := r.commits + 1 } else { r with aborts := r.aborts + 1 })

def emptied (t : Transaction) (committed : Bool) : List Nat :=
  if committed then [] else t.allocated

/-- The region once the words of the transaction are settled and its slots are
    gone through. -/
def rearranged (t : Transaction) (r : Region) (committed : Bool) : Region :=
  let r := r.settleWords t.id committed t.touched
  if committed then t.freed.foldr (fun slot r => r.retireFreed slot) r
  else
    let r := t.freed.foldr (fun slot r => { r with table := r.table.relink slot }) r
    t.allocated.foldr (fun slot r => r.retireAllocation slot) r

theorem commit_eq (t : Transaction) (r : Region) : t.commit r = t.rearranged r true := by
  simp only [commit, rearranged, Region.settleWords, Segment.settleWord, if_true]

theorem rollback_eq (t : Transaction) (r : Region) : t.rollback r = t.rearranged r false := by
  simp only [rollback, rearranged, Region.settleWords, Segment.settleWord, Bool.false_eq_true,
    if_false]

/-- What comes after that concerns the gate, the counters and the clock only. -/
theorem conclusion_eq (t : Transaction) (r : Region) (committed : Bool) :
    ∃ gate commits aborts, t.conclusion r committed =
      { t.rearranged r committed with
        gate, commits, aborts
        collector := (t.rearranged r committed).collector.unpin t.epoch } := by
  cases committed with
  | true =>
    simp only [conclusion, unpin, commit_eq, if_true]
    exact ⟨_, _, _, rfl⟩
  | false =>
    simp only [conclusion, unpin, rollback_eq, Bool.false_eq_true, if_false]
    exact ⟨_, _, _, rfl⟩

/-- What the end of a transaction comes to, whatever its logs say. -/
structure Settles (t : Transaction) (r : Region) (committed : Bool) (r' : Region) : Prop where
  settings_eq : r'.settings = r.settings
  ids_eq : r'.ids = r.ids
  size : r'.segments.size = r.segments.size
  layout : ∀ n, (r'.segment? n).map Segment.layout = (r.segment? n).map Segment.layout
  shaped : r.Shaped → r'.Shaped
  cells : ∀ ref, r'.cell? ref =
    if ref ∈ t.touched then (r.cell? ref).map (·.settled t.id committed) else r.cell? ref
  backed : r.Backed → r'.Backed

/-- Once the words are settled, nothing changes but slots and what waits. -/
theorem rearranges_rearranged (t : Transaction) (r : Region) (committed : Bool) :
    (r.settleWords t.id committed t.touched).Rearranges (t.rearranged r committed) := by
  unfold rearranged
  split
  · exact .foldr Region.rearranges_retireFreed _ _
  · exact (Region.Rearranges.foldr Region.rearranges_relink _ _).trans
      (.foldr Region.rearranges_retireAllocation _ _)

theorem reclaimed_conclusion (t : Transaction) (r : Region) (committed : Bool) :
    (t.conclusion r committed).reclaimed = r.reclaimed := by
  obtain ⟨gate, commits, aborts, heq⟩ := t.conclusion_eq r committed
  rw [heq, (t.rearranges_rearranged r committed).rest,
    (r.settleWords_spec t.id committed t.touched).1.rest]

theorem settles_conclusion (t : Transaction) (r : Region) (committed : Bool) :
    t.Settles r committed (t.conclusion r committed) := by
  obtain ⟨hwords, hcells⟩ := r.settleWords_spec t.id committed t.touched
  -- Words first, then slots; the rest concerns neither.
  have hslots := t.rearranges_rearranged r committed
  obtain ⟨gate, commits, aborts, heq⟩ := t.conclusion_eq r committed
  have hsettings : (t.conclusion r committed).settings
      = (r.settleWords t.id committed t.touched).settings := by rw [heq, hslots.rest]
  have hsegments : (t.conclusion r committed).segments
      = (r.settleWords t.id committed t.touched).segments := by rw [heq, hslots.rest]
  constructor
  · exact hsettings.trans hwords.settings_eq
  · rw [heq, hslots.rest]
    exact hwords.ids_eq
  · rw [hsegments]
    exact hwords.size
  · intro n
    unfold Region.segment?
    rw [hsegments]
    exact hwords.layout n
  · exact fun hr => (hwords.shaped hr).congr hsegments hsettings
  · exact fun ref => (Region.cell?_congr hsegments ref).trans (hcells ref)
  · intro hr
    rw [heq]
    exact (hslots.backed (hr.of_sameButWords hwords)).congr rfl rfl rfl rfl

/-- What the slots hold afterwards. -/
theorem lookup_conclusion (t : Transaction) (r : Region) (committed : Bool) (i : Nat) :
    (t.conclusion r committed).table.lookup i =
      if i ∈ t.emptied committed then .vacant
      else if i ∈ t.freed then
        if committed then (r.table.lookup i).markedRetired else (r.table.lookup i).relinked
      else r.table.lookup i := by
  obtain ⟨gate, commits, aborts, heq⟩ := t.conclusion_eq r committed
  have htable := (r.settleWords_spec t.id committed t.touched).1.table_eq
  rw [heq]
  show (t.rearranged r committed).table.lookup i = _
  cases committed with
  | true =>
    show (t.freed.foldr (fun slot r => r.retireFreed slot)
      (r.settleWords t.id true t.touched)).table.lookup i = _
    rw [Region.lookup_foldr Region.lookup_retireFreed (fun x => by cases x <;> rfl), htable]
    rfl
  | false =>
    show (t.allocated.foldr (fun slot r => r.retireAllocation slot)
      (t.freed.foldr (fun slot r => { r with table := r.table.relink slot })
        (r.settleWords t.id false t.touched))).table.lookup i = _
    rw [Region.lookup_foldr (f := fun _ => .vacant) Region.lookup_retireAllocation (fun _ => rfl),
      Region.lookup_foldr Region.lookup_relink (fun x => by cases x <;> rfl), htable]
    rfl

/-- What the end of a transaction comes to, if it holds the slots in its logs. -/
structure Concludes (t : Transaction) (r : Region) (committed : Bool) (r' : Region) : Prop
    extends t.Settles r committed r' where
  clock : r'.collector.clock = (r.collector.clock.leave t.epoch).tryAdvance
  slotted : r'.Slotted
  inOrder : r.collector.InOrder → r'.collector.InOrder
  others : ∀ i, i ∉ t.freed → i ∉ t.emptied committed → r'.table.lookup i = r.table.lookup i
  keeps : ∀ e i n, e ≤ r.collector.epoch → r.Keeps e i n → r'.Keeps e i n
  holds : ∀ e i n, e ≤ r.collector.epoch → i ∉ t.emptied committed →
    r.Holds e i n → r'.Holds e i n

/-- The slots after the words: what is left of the end of a transaction, once
    going through its slots is known. -/
theorem Concludes.of_moves {r₁ : Region} (hwords : r.SameButWords r₁)
    (hclock : (t.rearranged r committed).collector.clock = r₁.collector.clock)
    (hslotted : (t.rearranged r committed).Slotted)
    (hinOrder : r₁.collector.InOrder → (t.rearranged r committed).collector.InOrder)
    (hothers : ∀ i, i ∉ t.freed → i ∉ t.emptied committed →
      (t.rearranged r committed).table.lookup i = r₁.table.lookup i)
    (hkeeps : ∀ e i n, e ≤ r₁.collector.epoch → r₁.Keeps e i n →
      (t.rearranged r committed).Keeps e i n)
    (hholds : ∀ e i n, e ≤ r₁.collector.epoch → i ∉ t.emptied committed →
      r₁.Holds e i n → (t.rearranged r committed).Holds e i n) :
    t.Concludes r committed (t.conclusion r committed) := by
  have hsettles := t.settles_conclusion r committed
  obtain ⟨gate, commits, aborts, heq⟩ := t.conclusion_eq r committed
  have hepoch : r₁.collector.epoch = r.collector.epoch := by rw [hwords.collector_eq]
  rw [heq] at hsettles ⊢
  refine ⟨hsettles, ?_, hslotted, fun ho => ?_, fun i hfreed hemptied => ?_, fun e i n he hk => ?_,
    fun e i n he hi hh => ?_⟩
  · show ((t.rearranged r committed).collector.clock.leave t.epoch).tryAdvance = _
    rw [hclock, hwords.collector_eq]
  · rw [← hwords.collector_eq] at ho
    exact (hinOrder ho).later rfl rfl ((t.rearranged r committed).collector.epoch_le_unpin t.epoch)
  · exact (hothers i hfreed hemptied).trans (by rw [hwords.table_eq])
  · have hk₁ := hk.congr hwords.table_eq (congrArg Collector.entries hwords.collector_eq)
    exact (hkeeps e i n (hepoch ▸ he) hk₁).congr rfl rfl
  · have hh₁ := hh.congr hwords.table_eq (congrArg Collector.entries hwords.collector_eq)
    exact (hholds e i n (hepoch ▸ he) hi hh₁).congr rfl rfl

/-! ## Going through the slots in the logs -/

/-- The transaction holds the slots that it freed and, if it is not to commit,
    those that it allocated. -/
structure Disposes (t : Transaction) (r : Region) (committed : Bool) : Prop where
  slotted : r.Slotted
  freedOnce : t.freed.Nodup
  freed : ∀ i ∈ t.freed, ∃ n, r.table.lookup i = .freeing n
  allocatedOnce : t.allocated.Nodup
  allocated : committed = false → ∀ i ∈ t.allocated,
    (∃ n, r.table.lookup i = .live n) ∨ (i ∈ t.freed ∧ ∃ n, r.table.lookup i = .freeing n)

/-- The region in the middle of a rollback, when what the transaction freed is
    back in use and what it allocated has not been given up yet. -/
def freesUndone (t : Transaction) (r : Region) : Region :=
  t.freed.foldr (fun slot r => { r with table := r.table.relink slot })
    (r.settleWords t.id false t.touched)

def MarkedFreeing (x : Slot) : Prop := ∃ n, x = .freeing n

def MarkedLive (x : Slot) : Prop := ∃ n, x = .live n

namespace Disposes

variable (h : t.Disposes r committed)

include h

theorem slotted_settled : (r.settleWords t.id committed t.touched).Slotted :=
  h.slotted.of_sameButWords (r.settleWords_spec t.id committed t.touched).1

theorem freed_settled (i : Nat) (hi : i ∈ t.freed) :
    MarkedFreeing ((r.settleWords t.id committed t.touched).table.lookup i) := by
  rw [(r.settleWords_spec t.id committed t.touched).1.table_eq]
  exact h.freed i hi

omit h in
/-- A commit retires the slots that were freed. -/
theorem retires (h : t.Disposes r true) :
    (r.settleWords t.id true t.touched).Moves (t.rearranged r true) t.freed Slot.markedRetired :=
  .foldr (fun slot r => r.retireFreed slot) (P := MarkedFreeing)
    (fun _ _ hr ⟨_, hi⟩ => Region.moves_retireFreed hr hi) h.slotted_settled h.freedOnce
    h.freed_settled

omit h in
/-- A rollback first puts the slots that were freed back into use. -/
theorem relinks (h : t.Disposes r false) :
    (r.settleWords t.id false t.touched).Moves (t.freesUndone r) t.freed Slot.relinked :=
  .foldr (fun slot r => { r with table := r.table.relink slot }) (P := MarkedFreeing)
    (fun _ _ hr ⟨_, hi⟩ => Region.moves_relink hr hi) h.slotted_settled h.freedOnce
    h.freed_settled

omit h in
/-- Once its frees are undone, the slots that the transaction allocated are live. -/
theorem live_freesUndone (h : t.Disposes r false) (i : Nat) (hi : i ∈ t.allocated) :
    MarkedLive ((t.freesUndone r).table.lookup i) := by
  by_cases hif : i ∈ t.freed
  · obtain ⟨n, hn⟩ := h.freed_settled i hif
    exact ⟨n, by rw [h.relinks.lookup_of_mem hif, hn]; rfl⟩
  · rw [h.relinks.lookup_of_not_mem hif,
      (r.settleWords_spec t.id false t.touched).1.table_eq]
    exact (h.allocated rfl i hi).resolve_right fun hand => hif hand.1

omit h in
/-- Then it empties the slots that were allocated. -/
theorem empties (h : t.Disposes r false) :
    (t.freesUndone r).Moves (t.rearranged r false) t.allocated fun _ => .vacant :=
  .foldr (fun slot r => r.retireAllocation slot) (P := MarkedLive)
    (fun _ _ hr ⟨_, hi⟩ => Region.moves_retireAllocation hr hi) h.relinks.slotted
    h.allocatedOnce h.live_freesUndone

/-- What the words that are settled share with the region before, and each step
    through the slots keeps, is so once the end has gone through all of them. -/
theorem induct {Q : Region → Prop} (start : ∀ r', r.SameButWords r' → Q r')
    (retireFreed : committed = true → ∀ (r : Region) i n, r.Slotted →
      r.table.lookup i = .freeing n → Q r → Q (r.retireFreed i))
    (relink : committed = false → ∀ (r : Region) i n, r.Slotted →
      r.table.lookup i = .freeing n → Q r → Q { r with table := r.table.relink i })
    (retireAllocation : committed = false → ∀ (r : Region) i n, r.Slotted →
      r.table.lookup i = .live n → Q r → Q (r.retireAllocation i)) :
    Q (t.rearranged r committed) := by
  have hsettled := start _ (r.settleWords_spec t.id committed t.touched).1
  cases committed with
  | true =>
    exact Region.Moves.foldr_induct (fun slot r => r.retireFreed slot) (P := MarkedFreeing)
      (Q := fun _ => Q) (fun _ _ hr ⟨_, hi⟩ => Region.moves_retireFreed hr hi) h.slotted_settled
      h.freedOnce h.freed_settled hsettled fun _ r i hr ⟨n, hi⟩ => retireFreed rfl r i n hr hi
  | false =>
    have hundone : Q (t.freesUndone r) := Region.Moves.foldr_induct
      (fun slot r => { r with table := r.table.relink slot }) (P := MarkedFreeing)
      (Q := fun _ => Q) (fun _ _ hr ⟨_, hi⟩ => Region.moves_relink hr hi) h.slotted_settled
      h.freedOnce h.freed_settled hsettled fun _ r i hr ⟨n, hi⟩ => relink rfl r i n hr hi
    exact Region.Moves.foldr_induct (fun slot r => r.retireAllocation slot) (P := MarkedLive)
      (Q := fun _ => Q) (fun _ _ hr ⟨_, hi⟩ => Region.moves_retireAllocation hr hi)
      h.relinks.slotted h.allocatedOnce h.live_freesUndone hundone
      fun _ r i hr ⟨n, hi⟩ => retireAllocation rfl r i n hr hi

/-- The segment of a slot that is not emptied is not changed by its free being
    committed or undone. -/
theorem segment?_lookup_conclusion {i n : Nat} (hi : i ∉ t.emptied committed)
    (hn : (r.table.lookup i).segment? = some n) :
    ((t.conclusion r committed).table.lookup i).segment? = some n := by
  rw [t.lookup_conclusion, if_neg hi]
  split
  next hif =>
    obtain ⟨m, hm⟩ := h.freed i hif
    rw [hm] at hn ⊢
    cases committed <;> exact hn
  next => exact hn

/-- The end of a transaction which holds the slots that it freed and, unless it
    commits, those that it allocated. -/
theorem concludes : t.Concludes r committed (t.conclusion r committed) := by
  obtain ⟨hwords, -⟩ := r.settleWords_spec t.id committed t.touched
  obtain ⟨gate, commits, aborts, heq⟩ := t.conclusion_eq r committed
  -- A slot that is not emptied still has its segment, whatever came of its free.
  have hsegment : ∀ {i n}, i ∉ t.emptied committed →
      ((r.settleWords t.id committed t.touched).table.lookup i).segment? = some n →
      ((t.rearranged r committed).table.lookup i).segment? = some n := by
    intro i n hi hn
    have hlookup := h.segment?_lookup_conclusion (n := n) hi
    rw [heq] at hlookup
    exact hlookup (by rwa [hwords.table_eq] at hn)
  cases committed with
  | true =>
    have hmoves := h.retires
    refine .of_moves hwords hmoves.clock hmoves.slotted hmoves.inOrder
      (fun i hi _ => hmoves.lookup_of_not_mem hi) hmoves.keeps fun e i n he hi hh => ?_
    exact hmoves.holds he hh (hsegment hi hh.1)
  | false =>
    have hrelinked := h.relinks
    have hemptied := h.empties
    have hepoch := hrelinked.epoch_eq
    refine .of_moves hwords (hemptied.clock.trans hrelinked.clock) hemptied.slotted
      (hemptied.inOrder ∘ hrelinked.inOrder) ?_ ?_ ?_
    · intro i hif hia
      exact (hemptied.lookup_of_not_mem hia).trans (hrelinked.lookup_of_not_mem hif)
    · intro e i n he hk
      exact hemptied.keeps e i n (hepoch ▸ he) (hrelinked.keeps e i n he hk)
    · intro e i n he hi hh
      have hn := hsegment hi hh.1
      have hn₂ : ((t.freesUndone r).table.lookup i).segment? = some n := by
        rwa [hemptied.lookup_of_not_mem hi] at hn
      exact hemptied.holds (hepoch ▸ he) (hrelinked.holds he hh hn₂) hn

end Disposes

end Transaction

end TransactionalMemory
