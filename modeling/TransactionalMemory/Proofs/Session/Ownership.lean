import TransactionalMemory.Proofs.Session.Logs

/-! # Who owns words and slots

    A transaction marks in shared memory what nobody else may use meanwhile:
    it is the accessor of the words that it claims, and it marks the slots that
    it frees. Its own logs say the same. After every orderly run the marks and
    the logs agree, in both directions and each mark with one entry of one log:
    no mark is left by a transaction that has ended, nor by an operation that
    failed in the middle of a range.

    What a transaction allocates needs no mark. Until it ends, the slots in its
    log hold the segments that it put there. -/

namespace TransactionalMemory

namespace Session

variable {orderly : Prop} {s s' : Session} {h k : Handle} {t t' u u' : Transaction}
  {events : History} {r' : Region}

/-! ## Claims are exclusive -/

/-- No two open transactions have claimed one word, and none has claimed a word twice. -/
structure Exclusive (s : Session) : Prop where
  once : ∀ h t, s.open? h = some t → t.touched.Nodup
  apart : s.Apart Transaction.touched

namespace Exclusive

/-- A transaction is put back; what it has newly claimed was claimed by nobody. -/
theorem put (hx : s.Exclusive) (ho : s.open? h = some t) (honce : t'.touched.Nodup)
    (hnew : ∀ ref ∈ t'.touched, ref ∈ t.touched ∨ ∀ k u, s.open? k = some u → ref ∉ u.touched) :
    (s.put h (some t') r').Exclusive where
  once := by
    intro k u hu
    by_cases hk : k = h
    · subst hk
      rw [open?_put_self ho] at hu
      cases hu
      exact honce
    · exact hx.once k u ((open?_put_ne hk).symm.trans hu)
  apart := hx.apart.put ho hnew

/-- A transaction is put back with the claims that it had. -/
theorem put_same (hx : s.Exclusive) (ho : s.open? h = some t) (hsame : t'.touched = t.touched) :
    (s.put h (some t') r').Exclusive :=
  hx.put ho (hsame ▸ hx.once h t ho) fun _ href => .inl (hsame ▸ href)

/-- Nobody has claimed a word that has no accessor. -/
theorem unclaimed (hs : s.Steady) {ref : WordRef} {c : Cell} (hc : s.region.cell? ref = some c)
    (hnone : c.accessor = none) (hu : s.open? k = some u) : ref ∉ u.touched := by
  intro href
  obtain ⟨seg, hseg, -⟩ := Region.cell?_eq_some_iff.1 hc
  obtain ⟨c', hc', hid⟩ := (hs.claims k u hu ref href).2 (by rw [hseg]; rfl)
  cases hc.symm.trans hc'
  rw [hnone] at hid
  cases hid

/-- Whatever is done, claims stay exclusive. -/
theorem effect (hs : s.Steady) (hx : s.Exclusive) (e : Effect orderly s events s') :
    s'.Exclusive := by
  cases e with
  | began identified =>
    have hb := begins_enter identified
    refine ⟨fun k u hu => ?_, hx.apart.began hb hb.unlogged.1⟩
    rcases hb.before hu with hu | ⟨-, rfl⟩
    · exact hx.once k u hu
    · exact List.nodup_nil
  | @accessed h t t' a r' i isOpen readWrite found step =>
    obtain ⟨c, -, g, hc, -, hgrants, rfl, -⟩ := step.inv
    cases g with
    | claimed =>
      -- The word had no accessor, so it is new to every log.
      have hnew := fun k u (hu : s.open? k = some u) => unclaimed hs hc hgrants.1 hu
      refine hx.put isOpen (List.nodup_cons.2 ⟨hnew h t isOpen, hx.once h t isOpen⟩) ?_
      intro ref href
      rcases List.mem_cons.1 href with rfl | hold
      · exact .inr hnew
      · exact .inl hold
    | owned => exact hx.put_same isOpen rfl
    | observed seq => exact hx.put_same isOpen rfl
  | doomed isOpen => exact hx.put_same isOpen rfl
  | allocated isOpen readWrite whole granted => exact hx.put_same isOpen rfl
  | missed fails => exact ⟨hx.once, hx.apart⟩
  | freed isOpen readWrite live removable => exact hx.put_same isOpen rfl
  | ended isOpen valid gives =>
    exact ⟨fun k u hu => hx.once k u (open?_of_put_none isOpen hu).1, hx.apart.put_none isOpen⟩
  | collected => exact ⟨hx.once, hx.apart⟩

end Exclusive

/-! ## Marks of frees -/

/-- Every slot that is marked as being freed is in the log of an open transaction. -/
def FreesLogged (s : Session) : Prop :=
  ∀ i n, s.region.table.lookup i = .freeing n → ∃ h t, s.open? h = some t ∧ i ∈ t.freed

/-- The end of a transaction leaves no mark on the slots that it freed. -/
theorem not_freeing_of_mem_freed (hs : s.Sound) (ho : s.open? h = some t) {committed : Bool}
    (horderly : committed = false → s.MayGiveUp h) {i n : Nat} (hi : i ∈ t.freed) :
    (t.conclusion s.region committed).table.lookup i ≠ .freeing n := by
  obtain ⟨m, hm⟩ := (hs.logged h t ho).freed i hi
  rw [Transaction.lookup_conclusion, if_pos hi, hm]
  cases committed <;> simp only [Bool.false_eq_true, if_true, if_false] <;> split <;> nofun

/-- The end of a transaction marks no slot as being freed. -/
theorem freeing_of_conclusion (hs : s.Sound) (ho : s.open? h = some t) {committed : Bool}
    (horderly : committed = false → s.MayGiveUp h) {i n : Nat}
    (hi : (t.conclusion s.region committed).table.lookup i = .freeing n) :
    s.region.table.lookup i = .freeing n ∧ i ∉ t.freed := by
  have hfreed : i ∉ t.freed := fun hmem => not_freeing_of_mem_freed hs ho horderly hmem hi
  rw [Transaction.lookup_conclusion, if_neg hfreed] at hi
  split at hi
  · cases hi
  · exact ⟨hi, hfreed⟩

theorem FreesLogged.effect (hs : s.Sound) (hf : s.FreesLogged) (e : Effect True s events s') :
    s'.FreesLogged := by
  intro i n hi
  -- Whoever has freed a slot still has it in the log, unless this is its end.
  have hgoes : s.region.table.lookup i = .freeing n →
      (∀ k u committed, events = [.ended k committed] → s.open? k = some u → i ∉ u.freed) →
        ∃ h t, s'.open? h = some t ∧ i ∈ t.freed := by
    intro hold hends
    obtain ⟨k, u, hu, hmem⟩ := hf i n hold
    rcases open_after_effect e hu with ⟨u', hu', hgoes⟩ | ⟨committed, hevents, -⟩
    · exact ⟨k, u', hu', hgoes.freed i hmem⟩
    · exact absurd hmem (hends k u committed hevents hu)
  cases e with
  | began identified =>
    rw [(begins_enter identified).table_eq] at hi
    exact hgoes hi (fun k u committed hends => nomatch hends)
  | @accessed h t t' a r' j isOpen readWrite found step =>
    obtain ⟨_, _, _, _, hbecomes, _⟩ := step.inv
    rw [region_put, hbecomes.toSameButWords.table_eq] at hi
    refine hgoes hi fun k u committed hends => ?_
    split at hends <;> cases hends
  | doomed isOpen => exact hgoes hi (fun k u committed hends => nomatch hends)
  | @allocated h t r' size j isOpen readWrite whole granted =>
    -- The slot of the new segment is live, and the others are as they were.
    have hgrows := Region.grows_of_allocate? granted
    by_cases hij : i = j
    · rw [region_put, hij, hgrows.self] at hi
      cases hi
    · rw [region_put, hgrows.others i hij] at hi
      exact hgoes hi (fun k u committed hends => nomatch hends)
  | missed fails =>
    obtain ⟨table, hlookup, rfl⟩ := fails.inv
    exact hgoes ((hlookup i).symm.trans hi) (fun k u committed hends => nomatch hends)
  | @freed h t j m isOpen readWrite live removable =>
    by_cases hij : i = j
    · subst hij
      exact ⟨h, _, open?_put_self isOpen, List.mem_cons_self⟩
    · have hmoves := Region.moves_mark hs.slotted live
      rw [region_put, hmoves.lookup_of_not_mem (by simpa using hij)] at hi
      exact hgoes hi (fun k u committed hends => nomatch hends)
  | @ended h t committed isOpen valid gives =>
    obtain ⟨hold, hfreed⟩ := freeing_of_conclusion hs isOpen (gives trivial) hi
    refine hgoes hold fun k u c hends hu => ?_
    cases hends
    cases isOpen.symm.trans hu
    exact hfreed
  | collected =>
    rcases s.region.lookup_collect i with heq | hvacant
    · exact hgoes (heq.symm.trans hi) (fun k u committed hends => nomatch hends)
    · rw [hvacant] at hi
      cases hi

/-! ## Marks and logs -/

/-- The marks in the region and the logs of the open transactions agree. -/
structure Marked (s : Session) : Prop where
  /-- The accessor of a word is the open transaction that has the word in its log. -/
  accessor : ∀ n seg w id, s.region.segment? n = some seg → w < seg.words →
    ((seg.control w).accessor = some id ↔
      ∃ h t, s.open? h = some t ∧ t.mode = .readWrite id ∧ ⟨n, w⟩ ∈ t.touched)
  /-- A word is in one log only, and there once. -/
  touched : ∀ h t ref, s.open? h = some t → ref ∈ t.touched →
    t.touched.count ref = 1 ∧ ∀ k u, s.open? k = some u → ref ∈ u.touched → k = h
  /-- A word with a pending write has an accessor. -/
  written : ∀ n seg w, s.region.segment? n = some seg → w < seg.words →
    (seg.control w).written = true → (seg.control w).accessor ≠ none
  /-- A slot is marked as being freed if it is in the log of an open transaction. -/
  freeing : ∀ i, (∃ n, s.region.table.lookup i = .freeing n) ↔
    ∃ h t, s.open? h = some t ∧ i ∈ t.freed
  /-- A slot is in one log only, and there once. -/
  freed : ∀ h t i, s.open? h = some t → i ∈ t.freed →
    t.freed.count i = 1 ∧ ∀ k u, s.open? k = some u → i ∈ u.freed → k = h

theorem marked_of_sound (hs : s.Sound) (hx : s.Exclusive) (hf : s.FreesLogged) : s.Marked := by
  have hcell : ∀ {n seg w}, s.region.segment? n = some seg → w < seg.words →
      s.region.cell? ⟨n, w⟩ = some (seg.cell w) := fun hseg hw =>
    Region.cell?_eq_some_iff.2 ⟨_, hseg, hw, rfl⟩
  constructor
  case accessor =>
    intro n seg w id hseg hw
    constructor
    · exact fun hid => hs.accessors ⟨n, w⟩ _ id (hcell hseg hw) hid
    · rintro ⟨h, t, ho, hmode, href⟩
      obtain ⟨c, hc, hid⟩ := hs.cell?_of_touched ho href
      cases (hcell hseg hw).symm.trans hc
      have htid : t.id = id := by rw [Transaction.id, hmode]; rfl
      exact htid ▸ hid
  case touched =>
    intro h t ref ho href
    exact ⟨(hx.once h t ho).count.trans (if_pos href),
      fun k u hu hmem => hx.apart k h u t ref hu ho hmem href⟩
  case written =>
    intro n seg w hseg hw hwritten
    exact hs.pending ⟨n, w⟩ _ (hcell hseg hw) (by simp [Segment.cell, hwritten])
  case freeing =>
    intro i
    constructor
    · rintro ⟨n, hn⟩
      exact hf i n hn
    · rintro ⟨h, t, ho, hi⟩
      exact (hs.logged h t ho).freed i hi
  case freed =>
    intro h t i ho hi
    exact ⟨(hs.logged h t ho).freedOnce.count.trans (if_pos hi),
      fun k u hu hmem => hs.freedApart k h u t i hu ho hmem hi⟩

/-! ## What was allocated stays in its slot -/

/-- What a transaction allocated stays in its slot through every effect that
    does not end the transaction. -/
theorem holds_effect (hs : s.Sound) (e : Effect True s events s') (hu : s.open? k = some u)
    (hu' : s'.open? k = some u') {i n : Nat} (hi : i ∈ u.allocated)
    (hh : s.region.Holds u.epoch i n) : s'.region.Holds u.epoch i n := by
  have hepoch := hs.epoch_le hu
  cases e with
  | began identified =>
    have hb := begins_enter identified
    exact hh.congr hb.table_eq (by rw [hb.collector_eq]; rfl)
  | accessed isOpen readWrite found step =>
    obtain ⟨_, _, _, _, hbecomes, _⟩ := step.inv
    have hsame := hbecomes.toSameButWords
    exact hh.congr hsame.table_eq (congrArg Collector.entries hsame.collector_eq)
  | doomed isOpen => exact hh
  | allocated isOpen readWrite whole granted =>
    exact (Region.allocate?_spec hs.slotted granted).holds hh
  | missed fails => exact fails.holds hh
  | @freed h t j m isOpen readWrite live removable =>
    -- A slot that is marked goes on holding its segment.
    have hmoves := Region.moves_mark hs.slotted live
    refine hmoves.holds hepoch hh ?_
    by_cases hij : i = j
    · have hn := hh.1
      rw [hmoves.lookup_of_mem (by simpa using hij)]
      rw [hij, live] at hn ⊢
      exact hn
    · rw [hmoves.lookup_of_not_mem (by simpa using hij)]
      exact hh.1
  | @ended h t committed isOpen valid gives =>
    -- The slots that are emptied are those of the transaction that ends.
    obtain ⟨hu, hk⟩ := open?_of_put_none isOpen hu'
    refine (hs.concludes isOpen (gives trivial)).holds _ i n hepoch (fun hmem => ?_) hh
    unfold Transaction.emptied at hmem
    split at hmem
    · cases hmem
    · exact hk (hs.allocatedApart k h u' t i hu isOpen (by
        cases hu.symm.trans ‹s.open? k = some u›; exact hi) hmem)
  | collected =>
    exact (Region.collect_spec hs.slotted hs.inOrder hs.tallies).holds _ _ _
      (pinnedIn_ne_zero hu) hh

/-- What a transaction allocated stays in its slot until the transaction ends. -/
theorem holds_effects (hs : s.Sound) (e : Effects True s events s') (hu : s.open? k = some u)
    (hu' : s'.open? k = some u') {i n : Nat} (hi : i ∈ u.allocated)
    (hh : s.region.Holds u.epoch i n) : s'.region.Holds u.epoch i n := by
  induction e generalizing u' with
  | nil => exact hh
  | snoc before last ih =>
    obtain ⟨v, hv, -⟩ := open_between before last hu hu'
    have hgoes := continues_effects before hu hv
    have hmiddle := ih hv
    rw [← hgoes.epoch_eq] at hmiddle ⊢
    exact holds_effect (hs.effects before) last hv hu' (hgoes.allocated i hi) hmiddle

/-- Right after an allocation, the slot holds the new segment. -/
theorem holds_of_alloc (hs : s.Sound) {size i : Nat} {memory : Bool} {a : Address}
    (halloc : (s.alloc h size memory).1 = some (.ok a)) (ha : a.slot? = some i) :
    a = .ofParts i 0 ∧ ∃ u n, (s.alloc h size memory).2.open? h = some u ∧ i ∈ u.allocated ∧
      (s.alloc h size memory).2.region.table.lookup i = .live n ∧
      (s.alloc h size memory).2.region.Holds u.epoch i n := by
  obtain ⟨u, j, r', hu, -, rfl, hgranted, hput⟩ := allocates_of_ok halloc
  have hall := Region.allocate?_spec hs.slotted hgranted
  cases hall.slot?_eq.symm.trans ha
  rw [hput]
  exact ⟨rfl, _, _, open?_put_self hu, List.mem_cons_self, hall.self, hall.holds_self _⟩

/-- Slot `i` holds the segment that transaction `h` allocated in it during the run. -/
def StillHolds (start : Session) (operations : List Operation) (h : Handle) (i : Nat) : Prop :=
  ∃ before size memory after, operations = before ++ .alloc h size memory :: after ∧
    ((start.run before).2.alloc h size memory).1 = some (.ok (.ofParts i 0)) ∧
      ∃ n, ((start.run before).2.alloc h size memory).2.region.table.lookup i = .live n ∧
        ((start.run operations).2.region.table.lookup i).segment? = some n

/-- The slots in the log of an open transaction hold what the transaction put there. -/
theorem stillHolds_of_mem {settings : Settings} {start : Session}
    (hcreate : create settings = .ok start) (operations : List Operation)
    (horderly : start.Orderly operations) {i : Nat}
    (ho : (start.run operations).2.open? h = some t) (hi : i ∈ t.allocated) :
    StillHolds start operations h i := by
  -- Some operation has reported the slot.
  rw [((lists_run hcreate operations horderly h).isOpen t ho).1] at hi
  rcases mem_logged hi with hnil | ⟨before, operation, after, rfl, hreport⟩
  · cases hnil
  obtain ⟨size, memory, rfl, a, halloc, ha⟩ := alloc_of_mem_allocatedBy hreport
  obtain ⟨hbefore, -, hafter⟩ := (start.orderly_append before _).1 horderly
  have hs := (Recorded.run (.created hcreate) before hbefore).sound
  obtain ⟨rfl, u, n, hu, hmem, hlive, hholds⟩ := holds_of_alloc hs halloc ha
  -- From then on, nobody takes the segment out of the slot.
  have hgranting : Effects True (start.run before).2 _ _ := effects_alloc _ h size memory
  have hs' := hs.effects hgranting
  have hrest : Effects True _ _ _ := effects_record hs'.toSteady after fun _ => hafter
  have hend : (start.run (before ++ .alloc h size memory :: after)).2
      = (((start.run before).2.alloc h size memory).2.run after).2 := start.run_cut before _ after
  have hkept := holds_effects hs' hrest hu (hend ▸ ho) hmem hholds
  exact ⟨before, size, memory, after, rfl, halloc, n, hlive, hend ▸ hkept.1⟩

/-- In a newly created session nobody has claimed or freed anything. -/
theorem exclusive_of_create {settings : Settings} (h : create settings = .ok s) : s.Exclusive := by
  refine ⟨fun k u hu => ?_, fun j k v u ref hv => ?_⟩
  · rw [open?_of_create h] at hu
    cases hu
  · rw [open?_of_create h] at hv
    cases hv

theorem freesLogged_of_create {settings : Settings} (h : create settings = .ok s) :
    s.FreesLogged := by
  intro i n hi
  rw [lookup_of_create h] at hi
  split at hi <;> cases hi

/-- After every orderly run, the marks in the region and the logs of the open
    transactions agree, and the slots that an open transaction has allocated
    hold what it put there. -/
theorem run_marked {settings : Settings} {start : Session}
    (hcreate : create settings = .ok start) (operations : List Operation)
    (horderly : start.Orderly operations) :
    Marked (start.run operations).2 ∧
      ∀ h t i, (start.run operations).2.open? h = some t → i ∈ t.allocated →
        StillHolds start operations h i := by
  have hrec := Recorded.run (.created hcreate) operations horderly
  have hx : (start.run operations).2.Exclusive :=
    hrec.invariant exclusive_of_create fun hs hx e => hx.effect hs.toSteady e
  have hf : (start.run operations).2.FreesLogged :=
    hrec.invariant freesLogged_of_create fun hs hf e => hf.effect hs e
  exact ⟨marked_of_sound hrec.sound hx hf,
    fun h t i ho hi => stillHolds_of_mem hcreate operations horderly ho hi⟩

/-- One transaction has freed a segment that another one had committed, and has
    allocated a new one; a third one has claimed the first word of a range and
    met a conflict at the second. -/
theorem run_marked_after_conflict :
    ∃ start operations, create { size := 16, align := 8 } = .ok start ∧
      operations = [.begin false, .alloc 0 8 true, .finish 0, .begin false, .begin false,
        .write 1 (Region.start.advance 8) [1, 2, 3, 4, 5, 6, 7, 8], .free 1 (.ofParts 1 0),
        .alloc 1 8 true, .read 2 Region.start 16] ∧
      Marked (start.run operations).2 ∧ StillHolds start operations 1 2 := by
  refine ⟨_, _, rfl, rfl, ?_⟩
  have hmarked := @run_marked { size := 16, align := 8 } _ rfl
    [.begin false, .alloc 0 8 true, .finish 0, .begin false, .begin false,
      .write 1 (Region.start.advance 8) [1, 2, 3, 4, 5, 6, 7, 8], .free 1 (.ofParts 1 0),
      .alloc 1 8 true, .read 2 Region.start 16]
    (by decide +kernel)
  exact ⟨hmarked.1, hmarked.2 1 _ 2 rfl (by decide +kernel)⟩

end Session

end TransactionalMemory
