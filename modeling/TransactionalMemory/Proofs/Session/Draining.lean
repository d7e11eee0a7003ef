import TransactionalMemory.Proofs.Region.Draining
import TransactionalMemory.Proofs.Session.Accounting
import TransactionalMemory.Proofs.Session.Ownership

/-! # Collecting in an idle session

    When nobody is open any more, three collections release all that waits,
    however much that is and whatever state its retirement has reached. What is
    in use stays; every other slot number is to be handed out again, and only
    the segments in use are paid for. -/

namespace TransactionalMemory

namespace Session

variable {s s' : Session} {events : History}

/-! ## Before the session is idle -/

theorem Sound.timed (hs : s.Sound) : s.region.Timed s.pinnedIn := ⟨hs.inOrder, hs.tallies⟩

theorem heldBack_of_create {settings : Settings} (h : create settings = .ok s) :
    s.region.HeldBack s.pinnedIn := by
  intro x hx
  rw [(new_of_create h).1.collector_eq] at hx
  cases hx

/-- A linked retirement is of the current epoch only as long as an open
    transaction of the previous epoch holds the clock back. -/
theorem heldBack_effect (hs : s.Sound) (hb : s.region.HeldBack s.pinnedIn)
    (e : Effect True s events s') : s'.region.HeldBack s'.pinnedIn := by
  -- Transactions that go on are counted as before, and so is what waits.
  have hgoes : ∀ {h : Handle} {t t' : Transaction} {r' : Region}, s.open? h = some t →
      t'.epoch = t.epoch → r'.collector = s.region.collector →
      r'.HeldBack (s.put h (some t') r').pinnedIn := by
    intro h t t' r' ho hepoch hcollector
    rw [pinnedIn_put_some ho hepoch, Region.HeldBack, hcollector]
    exact hb
  cases e with
  | began identified =>
    have hbegins := begins_enter identified
    rw [hbegins.pinned, Region.HeldBack, hbegins.collector_eq]
    intro x hx hlinked he hzero
    refine hb x hx hlinked he ?_
    unfold EpochClock.joined at hzero
    split at hzero
    · omega
    · exact hzero
  | @accessed h t t' a r' i isOpen readWrite found step =>
    obtain ⟨_, _, _, _, hbecomes, _, rfl, _⟩ := step.inv
    exact hgoes isOpen (t.epoch_log ..) hbecomes.toSameButWords.collector_eq
  | doomed isOpen => exact hgoes isOpen rfl rfl
  | allocated isOpen readWrite whole granted =>
    exact hgoes isOpen rfl (Region.grows_of_allocate? granted).collector_eq
  | missed fails =>
    obtain ⟨table, -, rfl⟩ := fails.inv
    exact hb
  | freed isOpen readWrite live removable => exact hgoes isOpen rfl rfl
  | @ended h t committed isOpen valid gives =>
    have htimed := hs.timed
    rw [pinnedIn_put_none (r := t.conclusion s.region committed) isOpen] at htimed
    exact Region.heldBack_conclusion htimed committed
  | collected => exact Region.heldBack_collect hs.timed

/-! ## Once it is -/

theorem open?_eq_none_of_idle (hidle : s.openHandles = []) (h : Handle) : s.open? h = none := by
  by_contra hopen
  obtain ⟨t, ht⟩ := Option.ne_none_iff_exists'.1 hopen
  have hmem : h ∈ s.openHandles :=
    List.mem_filter.2 ⟨List.mem_range.2 (lt_size_of_open ht), by rw [ht]; rfl⟩
  rw [hidle] at hmem
  cases hmem

/-- Nobody is pinned when nobody is open. -/
theorem pinnedIn_of_idle (hidle : s.openHandles = []) : s.pinnedIn = fun _ => 0 := by
  funext e
  refine List.countP_eq_zero.2 fun o ho => ?_
  obtain ⟨h, hh, hget⟩ := List.getElem_of_mem ho
  have hnone := open?_eq_none_of_idle hidle h
  rw [open?, Array.getElem?_eq_getElem (by simpa using hh)] at hnone
  change s.transactions[h] = none at hnone
  rw [← hget, Array.getElem_toList, hnone]
  exact Bool.false_ne_true

/-- A region in which nothing waits, compared with one in which something may. -/
structure Drained (r r' : Region) : Prop where
  pending : r'.stats.pendingReclamation = 0
  /-- What is in use stays, and nothing else is in use. -/
  kept : ∀ i n, r'.table.lookup i = .live n ↔ r.table.lookup i = .live n
  liveSegments : r'.stats.liveSegments = r.stats.liveSegments
  /-- Only what is in use is paid for. -/
  bytesInUse : r'.stats.bytesInUse = r'.table.weight r'.bytesOf
  handedOut : r'.table.next = r.table.next
  /-- Every slot number that was handed out is in use, or to be handed out again. -/
  placed : ∀ i, i < r'.table.next →
    (∃ n, r'.table.lookup i = .live n) ∧ i ∉ r'.table.recycled ∨
      r'.table.lookup i = .vacant ∧ i ∈ r'.table.recycled

/-- What one collection changes in a session that is kept in order: neither the
    slots in use nor the sum of what waits and what was released. -/
structure Passes (s s' : Session) : Prop where
  sound : s'.Sound
  accounted : s'.Accounted
  transactions_eq : s'.transactions = s.transactions
  handedOut : s'.region.table.next = s.region.table.next
  liveSegments : s'.region.table.occupied.toNat = s.region.table.occupied.toNat
  used : ∀ i, (s.region.table.lookup i).isOccupied →
    s'.region.table.lookup i = s.region.table.lookup i
  vacated : ∀ i, s'.region.table.lookup i = s.region.table.lookup i ∨
    s'.region.table.lookup i = .vacant
  released : s'.region.collector.waiting.length + s'.region.reclaimed =
    s.region.collector.waiting.length + s.region.reclaimed

namespace Passes

theorem collect (hs : s.Sound) (ha : s.Accounted) : Passes s s.collect.2 := by
  have hsheds := Region.collect_spec hs.slotted hs.inOrder hs.tallies
  have haccount : s.collect.2.Accounted := ha.effect hs (.collected)
  have hweight := Region.weight_collect hs.slotted hs.timed
  refine ⟨hs.collected, haccount, rfl, s.region.next_collect, ?_, hsheds.used,
    s.region.lookup_collect, ?_⟩
  · exact haccount.counted.trans ((hweight _).trans ha.counted.symm)
  · have hafter : s.region.collect.2.segments.size = _ := haccount.published
    have hbefore : s.region.segments.size = _ := ha.published
    rw [hsheds.toDrops.size, hbefore] at hafter
    change _ = s.region.collect.2.table.weight _ + s.region.collect.2.collector.waiting.length
      + s.region.collect.2.reclaimed at hafter
    rw [hweight] at hafter
    show s.region.collect.2.collector.waiting.length + s.region.collect.2.reclaimed = _
    omega

theorem trans {s'' : Session} (h : Passes s s') (h' : Passes s' s'') : Passes s s'' where
  sound := h'.sound
  accounted := h'.accounted
  transactions_eq := h'.transactions_eq.trans h.transactions_eq
  handedOut := h'.handedOut.trans h.handedOut
  liveSegments := h'.liveSegments.trans h.liveSegments
  used := fun i hi => (h'.used i (by rw [h.used i hi]; exact hi)).trans (h.used i hi)
  vacated := by
    intro i
    rcases h'.vacated i with heq | hvacant
    · rw [heq]
      exact h.vacated i
    · exact .inr hvacant
  released := h'.released.trans h.released

/-- Once nothing waits and nobody is freeing a segment, the region is drained. -/
theorem drained (h : Passes s s') (hempty : s'.region.collector.entries = [])
    (hfreeing : ∀ i n, s'.region.table.lookup i ≠ .freeing n) :
    Drained s.region s'.region := by
  have hwaiting : s'.region.collector.waiting = [] := by
    rw [Region.waiting_eq, hempty, List.map_nil]
  constructor
  case pending => exact h.sound.inOrder.counted.trans (congrArg List.length hempty)
  case kept =>
    intro i n
    constructor
    · intro hlive
      rcases h.vacated i with heq | hvacant
      · exact heq.symm.trans hlive
      · cases hvacant.symm.trans hlive
    · intro hlive
      exact (h.used i (by rw [hlive]; rfl)).trans hlive
  case liveSegments => exact h.liveSegments
  case bytesInUse =>
    have hcharged := h.accounted.charged
    rw [hwaiting] at hcharged
    exact hcharged
  case handedOut => exact h.handedOut
  case placed =>
    intro i hi
    cases hlookup : s'.region.table.lookup i with
    | live n =>
      exact .inl ⟨⟨n, rfl⟩, h.sound.slotted.not_mem_recycled (by rw [hlookup]; nofun)⟩
    | freeing n => exact absurd hlookup (hfreeing i n)
    | retired n =>
      -- A retired slot would be waited for.
      have hmem := h.sound.slotted.retired i (by rw [hlookup]; rfl)
      rw [hwaiting] at hmem
      cases hmem
    | vacant =>
      have hcovered := h.accounted.covered i hi hlookup
      rw [hwaiting] at hcovered
      exact .inr ⟨rfl, hcovered.resolve_right fun hmem => nomatch hmem⟩

end Passes

/-- Once an orderly run has left nobody open, three collections release all that
    waits, and no more: together they report as many segments as were waiting. -/
theorem run_drains {settings : Settings} {start : Session}
    (hcreate : create settings = .ok start) (operations : List Operation)
    (horderly : start.Orderly operations)
    (hidle : (start.run operations).2.openHandles = []) :
    ∃ a b c, ((start.run operations).2.run [.collect, .collect, .collect]).1
        = [.released a, .released b, .released c] ∧
      a + b + c = (start.run operations).2.region.stats.pendingReclamation ∧
      Drained (start.run operations).2.region
        ((start.run operations).2.run [.collect, .collect, .collect]).2.region := by
  have hrec := Recorded.run (.created hcreate) operations horderly
  have hs := hrec.sound
  have ha : (start.run operations).2.Accounted :=
    hrec.invariant accounted_of_create fun hs ha e => ha.effect hs e
  have hb : (start.run operations).2.region.HeldBack (start.run operations).2.pinnedIn :=
    hrec.invariant heldBack_of_create fun hs hb e => heldBack_effect hs hb e
  have hf : (start.run operations).2.FreesLogged :=
    hrec.invariant freesLogged_of_create fun hs hf e => hf.effect hs e
  generalize (start.run operations).2 = s at hs ha hb hf hidle
  have htimed := hs.timed
  rw [pinnedIn_of_idle hidle] at htimed hb
  have hempty : s.collect.2.collect.2.collect.2.region.collector.entries = [] :=
    Region.entries_collect_thrice htimed hb
  -- The three passes one after the other.
  have hfirst := Passes.collect hs ha
  have hsecond := hfirst.trans (.collect hfirst.sound hfirst.accounted)
  have hthird := hsecond.trans (.collect hsecond.sound hsecond.accounted)
  refine ⟨_, _, _, rfl, ?_, hthird.drained hempty fun i n hi => ?_⟩
  · have hreleased := hthird.released
    rw [Region.waiting_eq, hempty] at hreleased
    have hone : s.collect.2.region.reclaimed = _ := s.region.reclaimed_collect
    have htwo : s.collect.2.collect.2.region.reclaimed = _ :=
      s.collect.2.region.reclaimed_collect
    have hthree : s.collect.2.collect.2.collect.2.region.reclaimed = _ :=
      s.collect.2.collect.2.region.reclaimed_collect
    have hpending : s.region.stats.pendingReclamation = s.region.collector.waiting.length := by
      rw [Collector.waiting, List.length_map]
      exact hs.inOrder.counted
    show s.collect.1 + s.collect.2.collect.1 + s.collect.2.collect.2.collect.1 = _
    change s.collect.2.region.reclaimed = _ + s.collect.1 at hone
    change _ = _ + s.collect.2.collect.1 at htwo
    change _ = _ + s.collect.2.collect.2.collect.1 at hthree
    rw [List.map_nil, List.length_nil] at hreleased
    omega
  · -- Whoever had freed a slot would still be open.
    have hbefore : s.region.table.lookup i = .freeing n := by
      rcases hthird.vacated i with heq | hvacant
      · exact heq.symm.trans hi
      · cases hvacant.symm.trans hi
    obtain ⟨h, t, ho, -⟩ := hf i n hbefore
    rw [open?_eq_none_of_idle hidle h] at ho
    cases ho

/-- Two segments whose free was committed under a reader are still linked, and two
    whose allocation was aborted have left their slots. For a third one there was
    no memory. -/
def mixedRetirements : List Operation :=
  [.begin false, .alloc 0 8 true, .alloc 0 8 true, .alloc 0 8 true, .finish 0, .begin true,
    .begin false, .free 2 (.ofParts 1 0), .free 2 (.ofParts 2 0), .finish 2, .begin false,
    .alloc 3 8 true, .abandon 3, .begin false, .alloc 4 8 true, .alloc 4 8 false, .abandon 1,
    .abandon 4]

theorem run_drains_mixed :
    ∃ start, create { size := 8, align := 8 } = .ok start ∧
      (start.run mixedRetirements).2.region.collector.waiting.map Retirement.linked
        = [true, true, false, false] ∧
      ∃ a b c, ((start.run mixedRetirements).2.run [.collect, .collect, .collect]).1
          = [.released a, .released b, .released c] ∧
        a + b + c = (start.run mixedRetirements).2.region.stats.pendingReclamation ∧
        Drained (start.run mixedRetirements).2.region
          ((start.run mixedRetirements).2.run [.collect, .collect, .collect]).2.region := by
  refine ⟨_, rfl, by decide +kernel, ?_⟩
  exact @run_drains { size := 8, align := 8 } _ rfl mixedRetirements (by decide +kernel)
    (by decide +kernel)

end Session

end TransactionalMemory
