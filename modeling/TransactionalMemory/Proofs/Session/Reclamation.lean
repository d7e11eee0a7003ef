import TransactionalMemory.Proofs.Session.Continuity
import TransactionalMemory.Proofs.Session.Operations

/-! # Nothing is released under an open transaction

    A transaction finds segments through slots, and goes on using what it found
    without looking again. This is safe: as long as it is open, no segment that
    was in a slot at a moment since it began is released, and the number of the
    slot is not handed out again, however many other transactions begin, end,
    allocate, free and collect meanwhile. -/

namespace TransactionalMemory

namespace Session

variable {s s' : Session} {h k : Handle} {u u' : Transaction} {events : History}

/-- What an open transaction keeps, it keeps through every effect that does not end it. -/
theorem keeps_effect (hs : s.Sound) (e : Effect True s events s') (hu : s.open? k = some u)
    (hu' : s'.open? k = some u') {i n : Nat} (hk : s.region.Keeps u.epoch i n) :
    s'.region.Keeps u.epoch i n := by
  have hepoch := hs.epoch_le hu
  cases e with
  | began identified =>
    have hb := begins_enter identified
    exact hk.congr hb.table_eq (by rw [hb.collector_eq]; rfl)
  | accessed isOpen readWrite found step =>
    obtain ⟨_, _, _, _, hbecomes, _⟩ := step.inv
    have hsame := hbecomes.toSameButWords
    exact hk.congr hsame.table_eq (congrArg Collector.entries hsame.collector_eq)
  | doomed isOpen => exact hk
  | allocated isOpen readWrite whole granted =>
    exact (Region.allocate?_spec hs.slotted granted).keeps hk
  | missed fails => exact fails.keeps hk
  | freed isOpen readWrite live removable =>
    exact (Region.moves_mark hs.slotted live).keeps _ _ _ hepoch hk
  | ended isOpen valid gives => exact (hs.concludes isOpen (gives trivial)).keeps _ _ _ hepoch hk
  | collected =>
    -- The transaction pins its epoch, so nothing younger expires.
    have hsheds := Region.collect_spec hs.slotted hs.inOrder hs.tallies
    exact hsheds.keeps _ _ _ (pinnedIn_ne_zero hu) hk

/-- What an open transaction keeps, it keeps until it ends. -/
theorem keeps_effects (hs : s.Sound) (e : Effects True s events s') (hu : s.open? k = some u)
    (hu' : s'.open? k = some u') {i n : Nat} (hk : s.region.Keeps u.epoch i n) :
    s'.region.Keeps u.epoch i n := by
  induction e generalizing u' with
  | nil => exact hk
  | snoc before last ih =>
    -- It is open before the last effect too, in the epoch in which it began.
    obtain ⟨v, hv, -⟩ := open_between before last hu hu'
    have hepoch := (continues_effects before hu hv).epoch_eq
    have hmiddle := ih hv
    rw [← hepoch] at hmiddle ⊢
    exact keeps_effect (hs.effects before) last hv hu' hmiddle

/-- A slot that somebody keeps is not given to a new segment. -/
theorem allocate?_ne_of_keeps (hs : s.Sound) {e i n size j : Nat} {r' : Region}
    (hk : s.region.Keeps e i n) (hj : s.region.allocate? size = some (j, r')) : j ≠ i := by
  have hall := Region.allocate?_spec hs.slotted hj
  intro heq
  -- The slot is in use, or its segment waits: an allocation gets neither kind.
  rcases hk with hn | ⟨_, x, hx, hslot, _⟩
  · rw [← heq, hall.vacant] at hn
    cases hn
  · exact hall.unawaited (heq ▸ hslot ▸ List.mem_map_of_mem (List.mem_map_of_mem hx))

/-- As long as a transaction is open, nothing that it can have found is released
    under it. Let segment `n` be in slot `i`, in use or not, at a moment when
    transaction `h` is open. At every later moment at which it still is, whatever
    was done in between: the segment is not released; the number of the slot is
    not to be handed out again, and no allocation gets it; the slot holds this
    segment or none; and every word in the logs of the transaction is in a
    segment that is not released. -/
theorem segment_kept_while_open {hist : History} (hrec : Recorded hist s)
    {t : Transaction} (ho : s.open? h = some t) {i n : Nat}
    (hi : (s.region.table.lookup i).segment? = some n) {operations : List Operation}
    (horderly : s.Orderly operations) (hrun : (s.run operations).2 = s') {t' : Transaction}
    (ho' : s'.open? h = some t') :
    (∃ seg, s'.region.segment? n = some seg ∧ seg.slot = i) ∧
      i ∉ s'.region.table.recycled ∧
      (∀ size j r', s'.region.allocate? size = some (j, r') → j ≠ i) ∧
      ((s'.region.table.lookup i).segment? = some n ∨ s'.region.table.lookup i = .vacant) ∧
      ∀ ref, t'.Reaches ref → ∃ seg, s'.region.segment? ref.segment = some seg := by
  have hs := hrec.sound
  have heffects : Effects True s _ _ := effects_record hs.toSteady operations fun _ => horderly
  rw [hrun] at heffects
  have hs' := hs.effects heffects
  have hkeeps : s'.region.Keeps t.epoch i n :=
    keeps_effects hs heffects ho ho' (.inl hi)
  obtain ⟨hunreleased, hunrecycled, -⟩ := hkeeps.unreleased hs'.slotted
  refine ⟨hunreleased, hunrecycled, fun size j r' hj => allocate?_ne_of_keeps hs' hkeeps hj,
    hkeeps.imp_right And.left, fun ref href => ?_⟩
  -- Words in the logs are in segments that the transaction keeps as well.
  obtain ⟨j, hj⟩ := (hs'.logged h t' ho').reached ref href
  obtain ⟨⟨seg, hseg, -⟩, -⟩ := hj.unreleased hs'.slotted
  exact ⟨seg, hseg⟩

/-- A segment is freed and the free committed while a read-only transaction is
    open: two collections later it is still there, and out of reach of allocations. -/
theorem segment_kept_while_reader_open :
    ∃ start, create { size := 8, align := 8 } = .ok start ∧
      ∃ s s' : Session,
        s = (start.run [.begin false, .alloc 0 8 true, .finish 0, .begin true]).2 ∧
        s' = (s.run [.begin false, .free 2 (.ofParts 1 0), .finish 2, .collect, .collect]).2 ∧
        (∃ seg, s'.region.segment? 1 = some seg ∧ seg.slot = 1) ∧
        1 ∉ s'.region.table.recycled ∧
        (∀ size j r', s'.region.allocate? size = some (j, r') → j ≠ 1) ∧
        ((s'.region.table.lookup 1).segment? = some 1 ∨ s'.region.table.lookup 1 = .vacant) := by
  refine ⟨_, rfl, _, _, rfl, rfl, ?_⟩
  have hrec := (@Recorded.created { size := 8, align := 8 } _ rfl).run
    [.begin false, .alloc 0 8 true, .finish 0, .begin true]
    ⟨trivial, trivial, fun hfalse => absurd hfalse (by decide +kernel), trivial, trivial⟩
  have hkept := segment_kept_while_open hrec (h := 1) rfl (i := 1) (n := 1) (by decide +kernel)
    (show Orderly _ [.begin false, .free 2 (.ofParts 1 0), .finish 2, .collect, .collect] from
      ⟨trivial, trivial, fun hfalse => absurd hfalse (by decide +kernel), trivial, trivial,
        trivial⟩)
    rfl rfl
  exact ⟨hkept.1, hkept.2.1, hkept.2.2.1, hkept.2.2.2.1⟩

end Session

end TransactionalMemory
