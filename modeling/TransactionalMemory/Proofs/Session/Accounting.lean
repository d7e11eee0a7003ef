import TransactionalMemory.Proofs.Region.Occupancy
import TransactionalMemory.Proofs.Session.Operations

/-! # Every slot and every byte is accounted for

    The account of a region is kept by every orderly run: a slot number that was
    handed out is in use, retired, emptied or to be handed out again, and in no
    two of these places, and the counters that the region reports are sums over
    these places. The permanent segment is in the permanent slot all the time.

    A transaction that gives up a segment after another one has freed it would
    retire the segment twice. That is why the run has to be orderly. -/

namespace TransactionalMemory

namespace Region

/-- The places in which the number of a slot can be. -/
inductive Place where
  /-- The slot holds a segment in use. -/
  | inUse
  /-- The segment was freed, and the slot still holds it. -/
  | linked
  /-- The segment has left the slot, and waits to be released. -/
  | unlinked
  /-- The number is to be handed out again. -/
  | recycled
  deriving DecidableEq

/-- The retirements that wait and name slot `i`. -/
def waitingFor (r : Region) (i : Nat) : List Retirement :=
  r.collector.waiting.filter fun e => e.slot = i

/-- Whether the number of slot `i` is in a place. -/
def Placed (r : Region) (i : Nat) : Place → Prop
  | .inUse => (r.table.lookup i).isOccupied = true
  | .linked => ∃ e, r.table.lookup i = .retired e.segment ∧ r.waitingFor i = [e] ∧ e.linked = true
  | .unlinked => r.table.lookup i = .vacant ∧ ∃ e, r.waitingFor i = [e] ∧ e.linked = false
  | .recycled => r.table.lookup i = .vacant ∧ r.table.recycled.count i = 1

variable {r : Region} {i : Nat}

/-- A slot that is waited for is so by one retirement. -/
theorem waitingFor_eq (hs : r.Slotted) {e : Retirement} (he : e ∈ r.collector.waiting) :
    r.waitingFor e.slot = [e] := by
  have honce := hs.waitingOnce
  unfold waitingFor
  generalize r.collector.waiting = waiting at he honce ⊢
  induction waiting with
  | nil => cases he
  | cons x rest ih =>
    obtain ⟨hx, honce⟩ := List.nodup_cons.1 honce
    have hrest : ∀ y ∈ rest, y.slot ≠ x.slot := fun y hy heq =>
      hx (heq ▸ List.mem_map_of_mem hy)
    rcases List.mem_cons.1 he with rfl | he
    · rw [List.filter_cons_of_pos (by simp), List.filter_eq_nil_iff.2 (by simpa using hrest)]
    · rw [List.filter_cons_of_neg (by simpa using (hrest e he).symm)]
      exact ih he honce

/-- The place of a slot number, as the slot and the list of numbers tell it. -/
def placeOf (r : Region) (i : Nat) : Place :=
  match r.table.lookup i with
  | .live _ | .freeing _ => .inUse
  | .retired _ => .linked
  | .vacant => if i ∈ r.table.recycled then .recycled else .unlinked

theorem eq_placeOf_of_placed (hs : r.Slotted) {p : Place} (h : r.Placed i p) : p = r.placeOf i := by
  unfold placeOf
  cases p with
  | inUse =>
    change (r.table.lookup i).isOccupied = true at h
    cases hi : r.table.lookup i with
    | live n => rfl
    | freeing n => rfl
    | retired n => rw [hi] at h; cases h
    | vacant => rw [hi] at h; cases h
  | linked =>
    obtain ⟨e, hi, -⟩ := h
    rw [hi]
  | unlinked =>
    -- What is waited for is not to be handed out again.
    obtain ⟨hi, e, he, -⟩ := h
    have hmem : e ∈ r.waitingFor i := he ▸ List.mem_singleton.2 rfl
    simp only [waitingFor, List.mem_filter, decide_eq_true_eq] at hmem
    rw [hi]
    exact (if_neg (hmem.2 ▸ hs.waitingUnrecycled e hmem.1)).symm
  | recycled =>
    obtain ⟨hi, hcount⟩ := h
    rw [hi]
    exact (if_pos (List.count_pos_iff.1 (by omega))).symm

theorem placed_placeOf (hs : r.Slotted) (ha : r.Accounted r.collector.waiting r.reclaimed)
    (hi : i < r.table.next) : r.Placed i (r.placeOf i) := by
  unfold placeOf
  cases hlookup : r.table.lookup i with
  | live n =>
    show (r.table.lookup i).isOccupied = true
    rw [hlookup]; rfl
  | freeing n =>
    show (r.table.lookup i).isOccupied = true
    rw [hlookup]; rfl
  | retired n =>
    -- A retired slot waits to be emptied.
    obtain ⟨e, he, rfl⟩ := List.mem_map.1 (hs.retired i (by rw [hlookup]; rfl))
    have hslot := hs.waitingSlot e he
    rw [hlookup, Slot.afterRetire] at hslot
    split at hslot
    next hlinked => exact ⟨e, hlookup.trans hslot, waitingFor_eq hs he, hlinked⟩
    next => cases hslot
  | vacant =>
    by_cases hmem : i ∈ r.table.recycled
    · rw [if_pos hmem]
      exact ⟨hlookup, hs.recycledOnce.count.trans (if_pos hmem)⟩
    · -- A vacant slot that is not to be handed out again is waited for.
      rw [if_neg hmem]
      obtain ⟨e, he, rfl⟩ := List.mem_map.1 ((ha.covered i hi hlookup).resolve_left hmem)
      have hslot := hs.waitingSlot e he
      rw [hlookup, Slot.afterRetire] at hslot
      split at hslot
      next => cases hslot
      next hlinked => exact ⟨hlookup, e, waitingFor_eq hs he, Bool.eq_false_iff.2 hlinked⟩

end Region

/-- Whether an operation has returned the address of a new segment. -/
def Answer.isAllocation : Answer → Bool
  | .allocated (some (.ok _)) => true
  | _ => false

namespace Session

variable {s s' : Session} {h k : Handle} {t u : Transaction} {events : History}

/-! ## The account of a run -/

/-- The slots and the bytes of the region are accounted for. -/
def Accounted (s : Session) : Prop :=
  s.region.Accounted s.region.collector.waiting s.region.reclaimed

/-- The end of a transaction moves slots from one place to another. -/
theorem accounted_conclusion (hs : s.Sound) (ha : s.Accounted) (ho : s.open? h = some t)
    {committed : Bool} (horderly : committed = false → s.MayGiveUp h) :
    (t.conclusion s.region committed).Accounted
      (t.conclusion s.region committed).collector.waiting
      (t.conclusion s.region committed).reclaimed := by
  have hrearranged : (t.rearranged s.region committed).Accounted
      (t.rearranged s.region committed).collector.waiting s.region.reclaimed := by
    refine (hs.disposes ho horderly).induct
      (Q := fun r => r.Accounted r.collector.waiting s.region.reclaimed) ?_ ?_ ?_ ?_
    · intro r hsame
      rw [hsame.collector_eq]
      exact Region.Accounted.of_sameButWords ha hsame
    · exact fun _ r i n hr hi ha => ha.retireFreed hr hi
    · intro _ r i n hr hi ha
      exact ha.restate (by rw [hi]; rfl) (n := n) (by rw [hi]; rfl) (by rw [hi]; rfl)
        (by rw [hi]; rfl)
    · exact fun _ r i n hr hi ha => ha.retireAllocation hr hi
  obtain ⟨gate, commits, aborts, heq⟩ := t.conclusion_eq s.region committed
  rw [t.reclaimed_conclusion, heq]
  exact hrearranged.congr (fun _ _ => rfl) (fun _ => id) rfl rfl rfl rfl rfl rfl rfl

theorem accounted_of_create {settings : Settings} (h : create settings = .ok s) :
    s.Accounted := by
  obtain ⟨r, hcreate, rfl⟩ := create_inv h
  exact Region.Accounted.of_create hcreate

/-- Nothing is accounted for anew when a transaction begins. -/
theorem Accounted.begins (ha : s.Accounted) (hb : s.Begins s' t) : s'.Accounted := by
  have hwaiting : s'.region.collector.waiting = s.region.collector.waiting := by
    rw [hb.collector_eq]; rfl
  unfold Accounted
  rw [hwaiting, hb.reclaimed_eq]
  refine Region.Accounted.congr ha (fun i w => by rw [hb.table_eq])
    (fun i hi => hb.table_eq ▸ hi) (by rw [hb.table_eq]) (by rw [hb.table_eq])
    (by rw [hb.table_eq]) (by rw [hb.segments_eq]) ?_ hb.bytesInUse_eq hb.settings_eq
  funext n
  rw [Region.bytesOf, Region.bytesOf, Region.segment?, Region.segment?, hb.segments_eq,
    Region.wordSize_congr hb.settings_eq]

/-- Every orderly effect keeps the account. -/
theorem Accounted.effect (hs : s.Sound) (ha : s.Accounted) (e : Effect True s events s') :
    s'.Accounted := by
  cases e with
  | began identified => exact ha.begins (begins_enter identified)
  | @accessed h t t' a r' i isOpen readWrite found step =>
    obtain ⟨_, _, _, _, hbecomes, _⟩ := step.inv
    have hsame := hbecomes.toSameButWords
    have hwords := Region.Accounted.of_sameButWords ha hsame
    show r'.Accounted r'.collector.waiting r'.reclaimed
    have hreclaimed : r'.reclaimed = s.region.reclaimed := by rw [hsame.rest]
    rw [hsame.collector_eq, hreclaimed]
    exact hwords
  | doomed isOpen => exact ha
  | @allocated h t r' size i isOpen readWrite whole granted =>
    have hreclaimed : r'.reclaimed = s.region.reclaimed := by
      obtain ⟨table, -, rfl⟩ := Region.allocate?_inv granted
      rfl
    show r'.Accounted r'.collector.waiting r'.reclaimed
    rw [hreclaimed]
    exact Region.Accounted.allocate hs.slotted ha granted
  | @missed r' fails =>
    have hreclaimed : r'.reclaimed = s.region.reclaimed := by
      obtain ⟨table, -, rfl⟩ := fails.inv
      rfl
    show r'.Accounted r'.collector.waiting r'.reclaimed
    rw [hreclaimed]
    exact Region.Accounted.fails hs.slotted ha fails
  | @freed h t i n isOpen readWrite live removable =>
    exact Region.Accounted.restate ha (by rw [live]; rfl) (n := n) (by rw [live]; rfl)
      (by rw [live]; rfl) (by rw [live]; rfl)
  | ended isOpen valid gives => exact accounted_conclusion hs ha isOpen (gives trivial)
  | collected => exact Region.Accounted.collect hs.slotted hs.inOrder hs.tallies ha

/-! ## The permanent segment -/

/-- The permanent segment is in its slot, as it was created, and no transaction
    can give it up. -/
structure Permanent (s : Session) (settings : Settings) : Prop where
  settings_eq : s.region.settings = settings
  live : s.region.table.lookup Region.permanentSlot = .live 0
  layout : (s.region.segment? 0).map Segment.layout
    = some (Region.permanentSlot, settings.permanentSize, settings.wordSize,
        settings.permanentSize / settings.wordSize)
  unallocated : ∀ h t, s.open? h = some t → Region.permanentSlot ∉ t.allocated

namespace Permanent

variable {settings : Settings} {t' : Transaction} {r' : Region}

/-- One transaction is put back in a region that still has the segment in the slot. -/
theorem put (hp : s.Permanent settings) (ho : s.open? h = some t)
    (hsettings : r'.settings = s.region.settings)
    (hlive : r'.table.lookup Region.permanentSlot = s.region.table.lookup Region.permanentSlot)
    (hlayout : (r'.segment? 0).map Segment.layout = (s.region.segment? 0).map Segment.layout)
    (hallocated : ∀ i ∈ t'.allocated, i ∈ t.allocated ∨ i ≠ Region.permanentSlot) :
    (s.put h (some t') r').Permanent settings where
  settings_eq := hsettings.trans hp.settings_eq
  live := hlive.trans hp.live
  layout := hlayout.trans hp.layout
  unallocated := by
    intro k u hu hmem
    by_cases hk : k = h
    · subst hk
      rw [open?_put_self ho] at hu
      cases hu
      rcases hallocated _ hmem with hold | hne
      · exact hp.unallocated k t ho hold
      · exact hne rfl
    · exact hp.unallocated k u ((open?_put_ne hk).symm.trans hu) hmem

/-- The permanent segment stays, whatever is done in an orderly way. -/
theorem effect (hs : s.Sound) (hp : s.Permanent settings) (e : Effect True s events s') :
    s'.Permanent settings := by
  have hs' := hs.effect e
  have hsettings := (settings_effect e).trans hp.settings_eq
  cases e with
  | began identified =>
    have hb := begins_enter identified
    refine ⟨hsettings, by rw [hb.table_eq]; exact hp.live, ?_, fun k u hu => ?_⟩
    · rw [Region.segment?, hb.segments_eq]
      exact hp.layout
    · rcases hb.before hu with hold | ⟨-, rfl⟩
      · exact hp.unallocated k u hold
      · exact List.not_mem_nil
  | @accessed h t t' a r' i isOpen readWrite found step =>
    obtain ⟨_, _, _, _, hbecomes, _, rfl, _⟩ := step.inv
    have hsame := hbecomes.toSameButWords
    exact hp.put isOpen hsame.settings_eq (by rw [hsame.table_eq]) (hsame.layout 0)
      fun j hj => .inl (by rwa [Transaction.allocated_log] at hj)
  | doomed isOpen => exact hp.put isOpen rfl rfl rfl fun _ hi => .inl hi
  | @allocated h t r' size i isOpen readWrite whole granted =>
    have hall := Region.allocate?_spec hs.slotted granted
    have hne : i ≠ Region.permanentSlot := by
      rintro rfl
      cases hp.live.symm.trans hall.vacant
    have hold : 0 ≠ s.region.segments.size :=
      Nat.ne_of_lt (Region.lt_size_of_slotOf? (hs.slotted.held _ _ (by rw [hp.live]; rfl)))
    refine hp.put isOpen hall.settings_eq (hall.others _ (Ne.symm hne)) ?_ fun j hj => ?_
    · rw [hall.segment?_eq, if_neg hold]
    · rcases List.mem_cons.1 hj with rfl | hold
      · exact .inr hne
      · exact .inl hold
  | missed fails =>
    obtain ⟨table, hlookup, rfl⟩ := fails.inv
    exact ⟨hsettings, (hlookup _).trans hp.live, hp.layout, hp.unallocated⟩
  | freed isOpen readWrite live removable =>
    exact hp.put isOpen rfl (s.region.table.lookup_set_ne _ removable) rfl fun _ hi => .inl hi
  | @ended h t committed isOpen valid gives =>
    have hdisposes := hs.disposes isOpen (gives trivial)
    have hend := t.settles_conclusion s.region committed
    refine ⟨hsettings, ?_, (hend.layout 0).trans hp.layout, fun k u hu => ?_⟩
    · -- The slot is live, so it is in neither log.
      have hfreed : Region.permanentSlot ∉ t.freed := fun hmem => by
        obtain ⟨n, hn⟩ := hdisposes.freed _ hmem
        cases hp.live.symm.trans hn
      have hemptied : Region.permanentSlot ∉ t.emptied committed := fun hmem => by
        unfold Transaction.emptied at hmem
        split at hmem
        · cases hmem
        · exact hp.unallocated h t isOpen hmem
      rw [region_put, Transaction.lookup_conclusion, if_neg hemptied, if_neg hfreed]
      exact hp.live
    · exact hp.unallocated k u (open?_of_put_none isOpen hu).1
  | collected =>
    have hsheds := Region.collect_spec hs.slotted hs.inOrder hs.tallies
    have hlive : s.region.collect.2.table.lookup Region.permanentSlot = .live 0 :=
      (hsheds.used _ (by rw [hp.live]; rfl)).trans hp.live
    refine ⟨hsettings, hlive, ?_, hp.unallocated⟩
    -- A slot in use holds a segment that is there.
    obtain ⟨seg, hseg, -⟩ := Option.map_eq_some_iff.1 (hs'.slotted.held _ _ (by
      show (s.region.collect.2.table.lookup _).segment? = _
      rw [hlive]; rfl))
    rcases hsheds.toDrops.segments 0 with heq | hnone
    · exact (congrArg (Option.map Segment.layout) heq).trans hp.layout
    · cases hseg.symm.trans hnone

theorem of_create (h : create settings = .ok s) : s.Permanent settings := by
  obtain ⟨r, hcreate, rfl⟩ := create_inv h
  obtain ⟨-, i, hallocate⟩ := Region.create_inv hcreate
  have hgrows := Region.grows_of_allocate? hallocate
  have hlive : r.table.lookup Region.permanentSlot = .live 0 := by
    rw [Region.lookup_of_create hcreate, if_pos rfl]
  have hslot : Region.permanentSlot = i := by
    -- Another slot would still be vacant.
    by_contra hne
    cases hlive.symm.trans (hgrows.others _ hne)
  refine ⟨hgrows.settings_eq, hlive, ?_, fun k u hu => ?_⟩
  · show (r.segment? 0).map Segment.layout = _
    rw [hgrows.segment?_eq, if_pos (by rfl), ← hslot]
    simp [Segment.layout, Segment.words, Segment.zeroed, Region.wordSize]
  · rw [open?_of_create h] at hu
    cases hu

end Permanent

/-! ## How many segments there have been -/

theorem size_segments_of_create {settings : Settings} (h : create settings = .ok s) :
    s.region.segments.size = 1 := by
  obtain ⟨r, hcreate, rfl⟩ := create_inv h
  obtain ⟨-, i, hallocate⟩ := Region.create_inv hcreate
  show r.segments.size = 1
  rw [(Region.grows_of_allocate? hallocate).segments_eq]
  rfl

/-- An operation of a transaction that allocates nothing adds no segment. -/
theorem size_segments_access {α : Type} (s : Session) (h : Handle)
    (operation : Transaction → Region → Outcome α)
    (hsame : ∀ t : Transaction, t.Unallocated s.region (operation t s.region)) :
    (s.access h operation).2.region.segments.size = s.region.segments.size := by
  cases ho : s.open? h with
  | none => rw [access, ho]
  | some t =>
    rw [access_of_open _ ho]
    exact (hsame t).size

/-- Each allocation that succeeds adds a segment, and no other operation does. -/
theorem size_segments_step (s : Session) (operation : Operation) :
    (s.step operation).2.region.segments.size =
      s.region.segments.size + if (s.step operation).1.isAllocation then 1 else 0 := by
  cases operation with
  | begin readOnly =>
    show (s.begin readOnly).2.region.segments.size = _
    rw [segments_begin]
    rfl
  | read h a length =>
    exact s.size_segments_access h (fun t r => t.read r a length) fun t =>
      (t.unslotted_read ..).toUnallocated
  | write h a bytes =>
    exact s.size_segments_access h (fun t r => t.write r a bytes) fun t =>
      (t.unslotted_write ..).toUnallocated
  | free h a =>
    exact s.size_segments_access h (fun t r => t.free r a) fun t => t.unallocated_free ..
  | alloc h size memory =>
    show (s.alloc h size memory).2.region.segments.size = s.region.segments.size
      + if (Answer.allocated (s.alloc h size memory).1).isAllocation then 1 else 0
    unfold alloc
    cases ho : s.open? h with
    | none => unfold access; rw [ho]; rfl
    | some t =>
      rw [access_of_open _ ho]
      cases t.alloc_cases s.region size memory with
      | refused doomed heq => rw [heq]; rfl
      | failed undoomed why heq => rw [heq]; rfl
      | scarce undoomed readWrite attempt heq =>
        obtain ⟨table, -, rfl⟩ := (Region.fails_of_attempt attempt).inv
        rw [heq]
        rfl
      | @granted _ r' undoomed readWrite whole enough found heq =>
        rw [heq]
        show r'.segments.size = _
        rw [(Region.grows_of_allocate? found).segments_eq, Array.size_push]
        rfl
  | abort h =>
    show (s.abort h).region.segments.size = _
    rw [segments_abort]
    rfl
  | finish h =>
    show (s.finish h).2.region.segments.size = _
    cases ho : s.open? h with
    | none => rw [finish, ho]; rfl
    | some t =>
      rw [finish_of_open ho]
      exact (Region.drops_collect _).size.trans (t.settles_conclusion ..).size
  | abandon h =>
    show (s.abandon h).region.segments.size = _
    cases ho : s.open? h with
    | none => rw [abandon, ho]; rfl
    | some t =>
      rw [abandon, ho]
      exact (t.settles_conclusion s.region false).size
  | collect => exact s.region.drops_collect.size

theorem size_segments_run (s : Session) (operations : List Operation) :
    (s.run operations).2.region.segments.size =
      s.region.segments.size + (s.run operations).1.countP Answer.isAllocation := by
  induction operations generalizing s with
  | nil => rfl
  | cons operation rest ih =>
    simp only [run]
    rw [ih, size_segments_step, List.countP_cons]
    omega

/-! ## The account as the region reports it -/

/-- What is reported of a region with these settings is right, if so many
    segments have been published in it. -/
structure Balanced (settings : Settings) (published : Nat) (r : Region) : Prop where
  /-- A number that was handed out is in one place and in no other. -/
  placed : ∀ i, i < r.table.next → ∃! p, r.Placed i p
  unused : ∀ i, r.table.next ≤ i → r.table.lookup i = .vacant
  /-- What a slot holds, and what waits, is a segment of that slot. -/
  held : ∀ i n, (r.table.lookup i).segment? = some n → r.slotOf? n = some i
  waitingHeld : ∀ e ∈ r.collector.waiting, r.slotOf? e.segment = some e.slot
  /-- The permanent segment is in its slot, and nobody has freed it. -/
  permanent : r.table.lookup Region.permanentSlot = .live 0
  permanentLayout : (r.segment? 0).map Segment.layout =
    some (Region.permanentSlot, settings.permanentSize, settings.wordSize,
      settings.permanentSize / settings.wordSize)
  liveSegments : r.stats.liveSegments = r.table.inUse.card
  pending : r.stats.pendingReclamation = r.collector.waiting.length
  published : r.stats.liveSegments + r.stats.pendingReclamation + r.stats.reclaimed = published
  bytesInUse : r.stats.bytesInUse =
    r.table.weight r.bytesOf + (r.collector.waiting.map fun e => r.bytesOf e.segment).sum
  limited : r.stats.bytesInUse ≤ settings.byteLimit

theorem Sound.balanced {settings : Settings} {published : Nat} (hs : s.Sound) (ha : s.Accounted)
    (hp : s.Permanent settings) (hsize : s.region.segments.size = published) :
    Balanced settings published s.region := by
  have hpending : s.region.collector.pending = s.region.collector.waiting.length := by
    rw [hs.inOrder.counted, Collector.waiting, List.length_map]
    rfl
  constructor
  case placed =>
    exact fun i hi => ⟨s.region.placeOf i, Region.placed_placeOf hs.slotted ha hi,
      fun _ hplaced => Region.eq_placeOf_of_placed hs.slotted hplaced⟩
  case unused => exact hs.slotted.fresh
  case held => exact hs.slotted.held
  case waitingHeld => exact hs.slotted.waitingHeld
  case permanent => exact hp.live
  case permanentLayout => exact hp.layout
  case liveSegments => exact ha.counted.trans s.region.table.weight_one
  case pending => exact hpending
  case published =>
    show s.region.table.occupied.toNat + s.region.collector.pending + s.region.reclaimed = _
    rw [ha.counted, hpending, ← hsize, ha.published]
  case bytesInUse =>
    -- Each retirement carries the bytes of its segment.
    refine ha.charged.trans (congrArg (_ + List.sum ·) (List.map_congr_left ?_))
    exact ha.priced
  case limited => exact hp.settings_eq ▸ ha.limited

/-- After every orderly run, every slot number and every byte is accounted for,
    and the counters of the region say so. -/
theorem run_balanced {settings : Settings} {start : Session}
    (hcreate : create settings = .ok start) (operations : List Operation)
    (horderly : start.Orderly operations) :
    Balanced settings (1 + (start.run operations).1.countP Answer.isAllocation)
      (start.run operations).2.region := by
  have hchain : Effects True start _ _ :=
    effects_record (steady_of_create hcreate) operations fun _ => horderly
  obtain ⟨hs, ha, hp⟩ := hchain.keep
    (P := fun s => s.Sound ∧ s.Accounted ∧ s.Permanent settings)
    (fun e ⟨hs, ha, hp⟩ => ⟨hs.effect e, ha.effect hs e, hp.effect hs e⟩)
    ⟨sound_of_create hcreate, accounted_of_create hcreate, .of_create hcreate⟩
  have hsize := size_segments_run start operations
  rw [size_segments_of_create hcreate] at hsize
  exact hs.balanced ha hp hsize

/-- Two slots are in use, a third one holds a segment whose free was committed
    under a reader, and a fourth one held a segment whose allocation was aborted.
    A fifth number was handed out for a segment for which there was no memory. -/
def everyPlace : List Operation :=
  [.begin false, .alloc 0 8 true, .alloc 0 8 true, .finish 0, .begin true, .begin false,
    .free 2 (.ofParts 1 0), .finish 2, .begin false, .alloc 3 8 true, .alloc 3 8 false,
    .abandon 3]

theorem run_balanced_after_abort :
    ∃ start, create { size := 8, align := 8 } = .ok start ∧
      (start.run everyPlace).1.countP Answer.isAllocation = 3 ∧
      (List.range 5).map (start.run everyPlace).2.region.placeOf =
        [.inUse, .linked, .inUse, .unlinked, .recycled] ∧
      Balanced { size := 8, align := 8 } (1 + (start.run everyPlace).1.countP Answer.isAllocation)
        (start.run everyPlace).2.region := by
  refine ⟨_, rfl, by decide +kernel, by decide +kernel, ?_⟩
  exact @run_balanced { size := 8, align := 8 } _ rfl everyPlace (by decide +kernel)

end Session

end TransactionalMemory
