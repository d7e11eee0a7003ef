import TransactionalMemory.Proofs.Session.Soundness

/-! # Effects keep sessions sound

    One theorem for each kind of orderly effect, on top of what every effect
    keeps, and from them the fact about all of them. -/

namespace TransactionalMemory

namespace Session

variable {s s' : Session} {h k : Handle} {t t' u : Transaction} {r' : Region}

/-- An access adds at most its own word to the logs. -/
theorem reaches_log {ref other : WordRef} {g : Grant}
    (hr : (t.log ref g).Reaches other) : other = ref ∨ t.Reaches other := by
  unfold Transaction.Reaches at hr ⊢
  cases g with
  | claimed =>
    rcases hr with hmem | hobs
    · exact (List.mem_cons.1 hmem).imp_right .inl
    · exact .inr (.inr hobs)
  | owned => exact .inr hr
  | observed seq =>
    rcases hr with hmem | ⟨seq', hobs⟩
    · exact .inr (.inl hmem)
    · rcases List.mem_cons.1 hobs with heq | hmem
      · exact .inl (congrArg Observation.ref heq)
      · exact .inr (.inr ⟨seq', hmem⟩)

namespace Sound

/-- What a transaction has logged stays true when the contents of words change. -/
theorem logged_sameButWords {r : Region} (hl : u.Logged r) (hsame : r.SameButWords r') :
    u.Logged r' := by
  have hentries := congrArg Collector.entries hsame.collector_eq
  exact hl.mono (fun ref _ hc => (hsame.isSome_cell? ref).trans hc)
    (fun _ _ hk => hk.congr hsame.table_eq hentries)
    (fun _ _ _ hh => hh.congr hsame.table_eq hentries) (fun _ _ => by rw [hsame.table_eq])

/-- An access to a word. -/
theorem accessed (hs : s.Sound) (ho : s.open? h = some t) (hrw : t.isReadOnly = false)
    {a : Access} {i : Nat} (hfound : (s.region.table.lookup i).segment? = some a.ref.segment)
    (hstep : t.WordStep s.region a t' r') : (s.put h (some t') r').Sound := by
  have hsteady := hs.toSteady.accessed ho hrw hstep
  obtain ⟨c, c', g, hc, hbecomes, -, rfl, -⟩ := hstep.inv
  have hsame := hbecomes.toSameButWords
  have hcollector := hsame.collector_eq
  have hown := logged_sameButWords (hs.logged h t ho) hsame
  refine hs.put ho hsteady (by simp) (by rw [hcollector]) (hs.slotted.of_sameButWords hsame)
    (by rw [hcollector]; exact hs.inOrder) ?_
    (fun k u _ hu => logged_sameButWords (hs.logged k u hu) hsame)
    (fun j hj => .inl (by rwa [Transaction.allocated_log] at hj))
    (fun j hj => .inl (by rwa [Transaction.freed_log] at hj))
  constructor
  · -- Only read-write transactions get here.
    intro hro
    rw [Transaction.isReadOnly, Transaction.mode_log] at hro
    rw [Transaction.isReadOnly, hro] at hrw
    cases hrw
  · -- The word that is new in the logs is the one that was accessed.
    intro ref href
    rcases reaches_log href with rfl | hold
    · rw [hbecomes.self]; rfl
    · exact hown.words ref hold
  · -- Its segment was found through slot `i`, which is in use.
    intro ref href
    rw [Transaction.epoch_log]
    rcases reaches_log href with rfl | hold
    · refine ⟨i, .inl ?_⟩
      rw [hsame.table_eq]
      exact hfound
    · exact hown.reached ref hold
  · rw [Transaction.allocated_log]; exact hown.allocatedOnce
  · simp only [Transaction.allocated_log, Transaction.epoch_log]; exact hown.allocated
  · rw [Transaction.freed_log]; exact hown.freedOnce
  · simp only [Transaction.freed_log]; exact hown.freed

/-- A transaction is doomed. -/
theorem doomed (hs : s.Sound) (ho : s.open? h = some t) : (s.put h (some t.doom) s.region).Sound :=
  hs.put ho (hs.toSteady.doomed ho) rfl rfl hs.slotted hs.inOrder (hs.logged h t ho).doom
    (fun k u _ hu => hs.logged k u hu) (fun _ hi => .inl hi) (fun _ hi => .inl hi)

/-- An allocation. -/
theorem allocated (hs : s.Sound) (ho : s.open? h = some t) (hrw : t.isReadOnly = false)
    {size i : Nat} (hwhole : s.region.wordSize ∣ size)
    (hgranted : s.region.allocate? size = some (i, r')) :
    (s.put h (some { t with allocated := i :: t.allocated }) r').Sound := by
  have hsteady := hs.toSteady.allocated ho hwhole hgranted
  have hall := Region.allocate?_spec hs.slotted hgranted
  have hcells := hall.cell?_eq hs.sized hwhole
  -- The slot was vacant, so it is in no log yet.
  have hnew : ∀ k u, s.open? k = some u → i ∉ u.allocated := by
    intro k u hu hmem
    obtain ⟨n, hn, -⟩ := (hs.logged k u hu).allocated i hmem
    rw [hall.vacant] at hn
    cases hn
  have hlogged : ∀ k u, s.open? k = some u → u.Logged r' := by
    intro k u hu
    refine (hs.logged k u hu).mono ?_ (fun _ _ => hall.keeps) (fun _ _ _ => hall.holds) ?_
    · -- No word that there was is replaced.
      intro ref _ hc
      rcases hcells ref with heq | ⟨_, hnone, _⟩
      · rwa [heq]
      · rw [hnone] at hc; cases hc
    · -- A slot that somebody has freed is not vacant.
      intro j hj
      obtain ⟨n, hn⟩ := (hs.logged k u hu).freed j hj
      refine hall.others j fun heq => ?_
      rw [heq, hall.vacant] at hn
      cases hn
  have hown := hlogged h t ho
  refine hs.put ho hsteady rfl (by rw [hall.collector_eq]) hall.slotted
    (by rw [hall.collector_eq]; exact hs.inOrder) ?_ (fun k u _ hu => hlogged k u hu) ?_
    (fun _ hi => .inl hi)
  · constructor
    · intro hro
      have hro' : t.isReadOnly = true := hro
      rw [hrw] at hro'
      cases hro'
    · exact hown.words
    · exact hown.reached
    · exact List.nodup_cons.2 ⟨hnew h t ho, hown.allocatedOnce⟩
    · intro j hj
      rcases List.mem_cons.1 hj with rfl | hold
      · exact ⟨_, hall.holds_self t.epoch⟩
      · exact hown.allocated j hold
    · exact hown.freedOnce
    · exact hown.freed
  · intro j hj
    rcases List.mem_cons.1 hj with rfl | hold
    · exact .inr hnew
    · exact .inl hold

/-- A free. -/
theorem freed (hs : s.Sound) (ho : s.open? h = some t) (hrw : t.isReadOnly = false) {i n : Nat}
    (hlive : s.region.table.lookup i = .live n) :
    (s.put h (some { t with freed := i :: t.freed })
      { s.region with table := s.region.table.mark i }).Sound := by
  have hmoves := Region.moves_mark hs.slotted hlive
  have hmarked := hmoves.lookup_of_mem (List.mem_singleton.2 rfl)
  rw [hlive] at hmarked
  -- The slot was live, so nobody has freed it yet.
  have hnew : ∀ k u, s.open? k = some u → i ∉ u.freed := by
    intro k u hu hmem
    obtain ⟨m, hm⟩ := (hs.logged k u hu).freed i hmem
    rw [hlive] at hm
    cases hm
  have hlogged : ∀ k u, s.open? k = some u →
      u.Logged { s.region with table := s.region.table.mark i } := by
    intro k u hu
    have hepoch := hs.epoch_le hu
    refine (hs.logged k u hu).mono (fun _ _ hc => hc)
      (fun j m => hmoves.keeps _ j m hepoch) ?_ ?_
    · -- Slot `i` goes from live to freed and holds the same segment.
      intro j _ m hh
      refine hmoves.holds hepoch hh ?_
      by_cases hji : j = i
      · subst hji
        have hm := hh.1
        rw [hlive] at hm
        rw [hmarked]
        exact hm
      · rw [hmoves.lookup_of_not_mem (by simpa using hji)]
        exact hh.1
    · intro j hj
      exact hmoves.lookup_of_not_mem (by
        rw [List.mem_singleton]; exact fun heq => hnew k u hu (heq ▸ hj))
  have hown := hlogged h t ho
  refine hs.put ho (hs.toSteady.freed ho i) rfl rfl hmoves.slotted hs.inOrder
    ?_ (fun k u _ hu => hlogged k u hu) (fun _ hi => .inl hi) ?_
  · constructor
    · intro hro
      have hro' : t.isReadOnly = true := hro
      rw [hrw] at hro'
      cases hro'
    · exact hown.words
    · exact hown.reached
    · exact hown.allocatedOnce
    · exact hown.allocated
    · exact List.nodup_cons.2 ⟨hnew h t ho, hown.freedOnce⟩
    · intro j hj
      rcases List.mem_cons.1 hj with rfl | hold
      · exact ⟨n, hmarked⟩
      · exact hown.freed j hold
  · intro j hj
    rcases List.mem_cons.1 hj with rfl | hold
    · exact .inr hnew
    · exact .inl hold

/-- An open transaction holds the slots in its logs, as far as its end goes through them. -/
theorem disposes (hs : s.Sound) (ho : s.open? h = some t) {committed : Bool}
    (horderly : committed = false → s.MayGiveUp h) : t.Disposes s.region committed where
  slotted := hs.slotted
  freedOnce := (hs.logged h t ho).freedOnce
  freed := (hs.logged h t ho).freed
  allocatedOnce := (hs.logged h t ho).allocatedOnce
  allocated := fun hc => horderly hc t ho

/-- What the end of an open transaction comes to. -/
theorem concludes (hs : s.Sound) (ho : s.open? h = some t) {committed : Bool}
    (horderly : committed = false → s.MayGiveUp h) :
    t.Concludes s.region committed (t.conclusion s.region committed) :=
  (hs.disposes ho horderly).concludes

/-- What another transaction has logged stays true. -/
theorem logged_concludes (hs : s.Sound) (ho : s.open? h = some t) {committed : Bool}
    (horderly : committed = false → s.MayGiveUp h) (hcon : t.Concludes s.region committed r')
    (hu : s.open? k = some u) (hk : k ≠ h) : u.Logged r' := by
  have hepoch := hs.epoch_le hu
  have hlog := hs.logged k u hu
  have hallocated : ∀ i ∈ u.allocated, i ∉ t.emptied committed := by
    intro i hi hmem
    unfold Transaction.emptied at hmem
    split at hmem
    · cases hmem
    · exact hk (hs.allocatedApart k h u t i hu ho hi hmem)
  refine hlog.mono ?_ (fun i n => hcon.keeps _ i n hepoch)
    (fun i hi n => hcon.holds _ i n hepoch (hallocated i hi)) ?_
  · intro ref _ hc
    rw [hs.cells_settles ho hcon.toSettles ref, Option.isSome_map]
    exact hc
  · intro i hi
    refine hcon.others i (fun hmem => hk (hs.freedApart k h u t i hu ho hi hmem)) fun hmem => ?_
    unfold Transaction.emptied at hmem
    split at hmem
    · cases hmem
    next hcommitted =>
      -- A slot that the transaction gives up is live, or freed by itself.
      obtain ⟨n, hn⟩ := hlog.freed i hi
      rcases horderly (Bool.eq_false_iff.2 hcommitted) t ho i hmem with ⟨m, hm⟩ | ⟨hfreed, _⟩
      · rw [hn] at hm; cases hm
      · exact hk (hs.freedApart k h u t i hu ho hi hfreed)

/-- The end of a transaction. -/
theorem ended (hs : s.Sound) (ho : s.open? h = some t) {committed : Bool}
    (horderly : committed = false → s.MayGiveUp h) :
    (s.put h none (t.conclusion s.region committed)).Sound := by
  have hsteady := hs.toSteady.ended ho committed
  have hcon := hs.concludes ho horderly
  generalize t.conclusion s.region committed = r' at hsteady hcon
  refine ⟨hsteady, hcon.slotted, hcon.inOrder hs.inOrder, ?_, ?_, ?_, ?_⟩
  · -- One transaction less is open in its epoch.
    show r'.collector.clock.Tallies _
    rw [hcon.clock]
    have htallies := hs.tallies
    rw [pinnedIn_put_none (r := r') ho] at htallies
    exact htallies.leave.tryAdvance
  · intro k u hu
    obtain ⟨hu, hk⟩ := open?_of_put_none ho hu
    exact hs.logged_concludes ho horderly hcon hu hk
  · exact (show s.Apart Transaction.allocated from hs.allocatedApart).put_none ho
  · exact (show s.Apart Transaction.freed from hs.freedApart).put_none ho

/-- The beginning of a transaction. -/
theorem began (hs : s.Sound) (hb : Begins s s' t) : s'.Sound := by
  have hentries : s'.region.collector.entries = s.region.collector.entries := by
    rw [hb.collector_eq]; rfl
  have hcells := Region.cell?_congr hb.segments_eq
  refine ⟨hs.toSteady.began hb, ?_, ?_, ?_, ?_,
    (show s.Apart Transaction.allocated from hs.allocatedApart).began hb hb.unlogged.2.2.1,
    (show s.Apart Transaction.freed from hs.freedApart).began hb hb.unlogged.2.2.2⟩
  · have hslots : s'.region.slotOf? = s.region.slotOf? := by
      funext n
      unfold Region.slotOf? Region.segment?
      rw [hb.segments_eq]
    unfold Region.Slotted
    rw [Region.waiting_eq, hb.table_eq, hslots, hentries]
    exact hs.slotted
  · -- Pinning an epoch moves nothing in the queue.
    rw [hb.collector_eq]
    exact hs.inOrder.later rfl rfl (Nat.le_refl _)
  · rw [hb.pinned, hb.collector_eq, hb.epoch_eq]
    exact hs.tallies.enter
  · intro k u hu
    rcases hb.before hu with hu | ⟨_, rfl⟩
    · refine (hs.logged k u hu).mono (fun ref _ hc => by rwa [hcells ref])
        (fun _ _ hk => hk.congr hb.table_eq hentries)
        (fun _ _ _ hh => hh.congr hb.table_eq hentries) ?_
      exact fun _ _ => by rw [hb.table_eq]
    · -- All that the new transaction has logged is nothing.
      obtain ⟨htouched, hobserved, hallocated, hfreed⟩ := hb.unlogged
      have hnone : ∀ ref, ¬ u.Reaches ref := by
        rintro ref (hmem | ⟨seq, hmem⟩)
        · rw [htouched] at hmem; cases hmem
        · rw [hobserved] at hmem; cases hmem
      constructor
      · exact fun _ => hb.unlogged
      · exact fun ref href => absurd href (hnone ref)
      · exact fun ref href => absurd href (hnone ref)
      · rw [hallocated]; exact List.nodup_nil
      · rw [hallocated]; exact fun _ hmem => nomatch hmem
      · rw [hfreed]; exact List.nodup_nil
      · rw [hfreed]; exact fun _ hmem => nomatch hmem

/-- An attempt to allocate that fails. -/
theorem missed (hs : s.Sound) (hfails : s.region.Fails r') : Sound { s with region := r' } := by
  have hsteady := hs.toSteady.missed hfails
  have hslotted := hfails.slotted hs.slotted
  have hlogged : ∀ k u, s.open? k = some u → u.Logged r' := by
    intro k u hu
    refine (hs.logged k u hu).mono ?_ (fun _ _ => hfails.keeps) (fun _ _ _ => hfails.holds) ?_
    · obtain ⟨table, -, rfl⟩ := hfails.inv
      exact fun _ _ hc => hc
    · obtain ⟨table, hlookup, rfl⟩ := hfails.inv
      exact fun i _ => hlookup i
  obtain ⟨table, -, rfl⟩ := hfails.inv
  exact ⟨hsteady, hslotted, hs.inOrder, hs.tallies, hlogged, hs.allocatedApart, hs.freedApart⟩

/-- A collection. -/
theorem collected (hs : s.Sound) : Sound { s with region := s.region.collect.2 } := by
  have hsteady := hs.toSteady.collected
  have hsheds := Region.collect_spec hs.slotted hs.inOrder hs.tallies
  generalize s.region.collect.2 = r' at hsteady hsheds
  have hpinned : ∀ {k u}, s.open? k = some u → s.pinnedIn u.epoch ≠ 0 := pinnedIn_ne_zero
  refine ⟨hsteady, hsheds.slotted, hsheds.inOrder, hsheds.tallies, ?_, hs.allocatedApart,
    hs.freedApart⟩
  intro k u hu
  have hlog := hs.logged k u hu
  have hkeeps := fun i n => hsheds.keeps u.epoch i n (hpinned hu)
  refine hlog.mono ?_ hkeeps (fun i _ n => hsheds.holds u.epoch i n (hpinned hu)) ?_
  · -- The segment of a word in the log is kept, so it was not released.
    intro ref href hc
    obtain ⟨i, hi⟩ := hlog.reached ref href
    obtain ⟨⟨seg, hseg, -⟩, -⟩ := (hkeeps i _ hi).unreleased hsheds.slotted
    rwa [hsheds.toDrops.cell?_of_isSome (by rw [hseg]; rfl)]
  · intro i hi
    obtain ⟨n, hn⟩ := hlog.freed i hi
    exact hsheds.used i (by rw [hn]; rfl)

end Sound

/-- A sound session stays sound, whatever is done to it in an orderly way. -/
theorem Sound.effect {events : History} (hs : s.Sound) (e : Effect True s events s') :
    s'.Sound := by
  cases e with
  | began identified => exact hs.began (begins_enter identified)
  | accessed isOpen readWrite found step => exact hs.accessed isOpen readWrite found step
  | doomed isOpen => exact hs.doomed isOpen
  | allocated isOpen readWrite whole granted => exact hs.allocated isOpen readWrite whole granted
  | missed fails => exact hs.missed fails
  | freed isOpen readWrite live removable => exact hs.freed isOpen readWrite live
  | ended isOpen _ gives => exact hs.ended isOpen (gives trivial)
  | collected => exact hs.collected

theorem Sound.effects {events : History} (hs : s.Sound) (e : Effects True s events s') :
    s'.Sound :=
  e.keep (fun e hs => hs.effect e) hs

end Session

end TransactionalMemory
