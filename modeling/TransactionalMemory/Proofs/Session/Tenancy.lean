import TransactionalMemory.Proofs.Region.Tenure
import TransactionalMemory.Proofs.Session.Operations

/-! # Who can rely on a slot

    What holds of a session after any run, orderly or not, in which no segment
    was released twice:

    - a slot number belongs to one segment at a time;
    - a slot that an open transaction has freed is still marked, unless somebody
      else has undone its allocation since;
    - a slot that an open transaction has allocated still holds its segment.

    Whether a segment was released twice shows at the end of a run: from then on
    fewer segments are gone than were released. So if it was not released twice
    at the end of a run, it was not in the course of it either. -/

namespace TransactionalMemory

/-- Slot `i` is marked as being freed, or was vacated and is not handed out while
    epoch `e` is pinned. -/
def Region.Surrendered (r : Region) (e i : Nat) : Prop :=
  (∃ n, r.table.lookup i = .freeing n) ∨ ∃ n, r.Vacated e i n

/-- What the slots are that an open transaction has in its logs. -/
structure Transaction.Tenant (t : Transaction) (r : Region) : Prop where
  freedOnce : t.freed.Nodup
  freed : ∀ i ∈ t.freed, r.Surrendered t.epoch i
  allocated : ∀ i ∈ t.allocated, ∃ n, r.Retains t.epoch i n

namespace Transaction.Tenant

variable {t t' : Transaction} {r r' : Region}

/-- What the transaction relies on goes on being so. -/
theorem mono (h : t.Tenant r)
    (hfreed : ∀ i ∈ t.freed, r.Surrendered t.epoch i → r'.Surrendered t.epoch i)
    (hallocated : ∀ i ∈ t.allocated, ∀ n, r.Retains t.epoch i n → r'.Retains t.epoch i n) :
    t.Tenant r' where
  freedOnce := h.freedOnce
  freed := fun i hi => hfreed i hi (h.freed i hi)
  allocated := fun i hi => (h.allocated i hi).imp (hallocated i hi)

theorem congr (h : t.Tenant r) (htable : r'.table = r.table) (hslots : r'.slotOf? = r.slotOf?)
    (hentries : r'.collector.entries = r.collector.entries) : t.Tenant r' := by
  refine h.mono (fun i _ hi => ?_) fun i _ n hn => hn.congr htable hentries
  refine hi.imp (fun hmarked => by rwa [htable]) ?_
  exact fun ⟨n, hn⟩ => ⟨n, hn.congr htable hslots hentries⟩

theorem sameButWords (h : t.Tenant r) (hsame : r.SameButWords r') : t.Tenant r' :=
  h.congr hsame.table_eq (funext hsame.slotOf?_eq) (congrArg Collector.entries hsame.collector_eq)

/-- The same logs under the same epoch rely on the same. -/
theorem withLogs (h : t.Tenant r) (hepoch : t'.epoch = t.epoch) (hfreed : t'.freed = t.freed)
    (hallocated : t'.allocated = t.allocated) : t'.Tenant r where
  freedOnce := by rw [hfreed]; exact h.freedOnce
  freed := by rw [hfreed, hepoch]; exact h.freed
  allocated := by rw [hallocated, hepoch]; exact h.allocated

theorem not_retired (h : t.Tenant r) (i : Nat) (hi : i ∈ t.freed) :
    (r.table.lookup i).isRetired = false := by
  rcases h.freed i hi with ⟨n, hn⟩ | ⟨n, hn⟩
  · rw [hn]; rfl
  · rw [hn.vacant]; rfl

end Transaction.Tenant

namespace Session

variable {orderly : Prop} {s s' : Session} {h k : Handle} {t t' u : Transaction} {r' : Region}
  {events : History}

/-! ## Segments that are gone -/

/-- Only a collection lets segments go. -/
theorem counts_effect (e : Effect orderly s events s') :
    (s'.region.gone = s.region.gone ∧ s'.region.reclaimed = s.region.reclaimed) ∨
      s'.region = s.region.collect.2 := by
  cases e with
  | began identified =>
    have hb := begins_enter identified
    refine .inl ⟨?_, hb.reclaimed_eq⟩
    rw [Region.gone, hb.segments_eq]
    rfl
  | accessed isOpen readWrite found step =>
    obtain ⟨_, _, _, _, hbecomes, _⟩ := step.inv
    have hsame := hbecomes.toSameButWords
    refine .inl ⟨Region.gone_congr hsame.size hsame.layout, ?_⟩
    rw [region_put, hsame.rest]
  | doomed isOpen => exact .inl ⟨rfl, rfl⟩
  | allocated isOpen readWrite whole granted =>
    obtain ⟨table, -, rfl⟩ := Region.allocate?_inv granted
    exact .inl ⟨by simp [Region.gone], rfl⟩
  | missed fails =>
    obtain ⟨table, -, rfl⟩ := fails.inv
    exact .inl ⟨rfl, rfl⟩
  | freed isOpen readWrite live removable => exact .inl ⟨rfl, rfl⟩
  | @ended h t committed isOpen valid gives =>
    exact .inl ⟨t.gone_conclusion s.region committed, t.reclaimed_conclusion s.region committed⟩
  | collected => exact .inr rfl

/-- An effect lets go no more segments than it releases. -/
theorem gone_le_effect (e : Effect orderly s events s') :
    s'.region.gone + s.region.reclaimed ≤ s.region.gone + s'.region.reclaimed := by
  rcases counts_effect e with ⟨hgone, hreclaimed⟩ | hcollect
  · omega
  · have hgone := s.region.gone_collect_le
    have hreclaimed := s.region.reclaimed_collect
    rw [hcollect]
    omega

theorem gone_le_effects (e : Effects orderly s events s')
    (hle : s.region.gone ≤ s.region.reclaimed) : s'.region.gone ≤ s'.region.reclaimed := by
  refine e.keep (P := fun s => s.region.gone ≤ s.region.reclaimed) (fun e hle => ?_) hle
  have hstep := gone_le_effect e
  omega

/-- If no segment was released twice in the end, none was before. -/
theorem releasedOnce_before (e : Effects orderly s events s')
    (hle : s.region.gone ≤ s.region.reclaimed) (honce : s'.region.ReleasedOnce) :
    s.region.ReleasedOnce := by
  induction e with
  | nil => exact honce
  | snoc before last ih =>
    have hstep := gone_le_effect last
    have hbefore := gone_le_effects before hle
    unfold Region.ReleasedOnce at *
    omega

/-- In an orderly run no segment is released twice. -/
theorem Sound.releasedOnce_effect (hs : s.Sound) (honce : s.region.ReleasedOnce)
    (e : Effect orderly s events s') : s'.region.ReleasedOnce := by
  unfold Region.ReleasedOnce at *
  rcases counts_effect e with ⟨hgone, hreclaimed⟩ | hcollect
  · omega
  · have hgone := Region.gone_collect hs.slotted ⟨hs.inOrder, hs.tallies⟩
    have hreclaimed := s.region.reclaimed_collect
    rw [hcollect]
    omega

/-! ## The invariant -/

/-- What holds of a session between its operations, if no segment was released twice. -/
structure Tenanted (s : Session) : Prop where
  timed : s.region.Timed s.pinnedIn
  housed : s.region.Housed
  releasedOnce : s.region.ReleasedOnce
  tenant : ∀ h t, s.open? h = some t → t.Tenant s.region
  freedApart : s.Apart Transaction.freed
  allocatedApart : s.Apart Transaction.allocated

namespace Tenanted

/-- Whoever is open pins an epoch that has come. -/
theorem epoch_le (hs : s.Tenanted) (ho : s.open? h = some t) :
    t.epoch ≤ s.region.collector.epoch :=
  (hs.timed.tallies.epoch_le_of_ne_zero (pinnedIn_ne_zero ho)).1

/-- What is left to show when one transaction goes on with other logs, in a
    region with the same collector. -/
theorem put (hs : s.Tenanted) (ho : s.open? h = some t) (hepoch : t'.epoch = t.epoch)
    (hcollector : r'.collector = s.region.collector) (hhoused : r'.Housed)
    (honce : r'.ReleasedOnce) (hown : t'.Tenant r')
    (hothers : ∀ k u, k ≠ h → s.open? k = some u → u.Tenant r')
    (hfreed : ∀ i ∈ t'.freed, i ∈ t.freed ∨ ∀ k u, s.open? k = some u → i ∉ u.freed)
    (hallocated : ∀ i ∈ t'.allocated,
      i ∈ t.allocated ∨ ∀ k u, s.open? k = some u → i ∉ u.allocated) :
    (s.put h (some t') r').Tenanted := by
  refine ⟨?_, hhoused, honce, fun k u hu => ?_, hs.freedApart.put ho hfreed,
    hs.allocatedApart.put ho hallocated⟩
  · rw [pinnedIn_put_some ho hepoch]
    exact hs.timed.congr hcollector
  · by_cases hk : k = h
    · rw [hk, open?_put_self ho] at hu
      cases hu
      exact hown
    · rw [open?_put_ne hk] at hu
      exact hothers k u hk hu

/-- Words are accessed, or the transaction is doomed. -/
theorem sameButWords (hs : s.Tenanted) (ho : s.open? h = some t) (hepoch : t'.epoch = t.epoch)
    (hfreed : t'.freed = t.freed) (hallocated : t'.allocated = t.allocated)
    (hsame : s.region.SameButWords r') (honce : r'.ReleasedOnce) :
    (s.put h (some t') r').Tenanted :=
  hs.put ho hepoch hsame.collector_eq (hs.housed.of_sameButWords hsame) honce
    (((hs.tenant h t ho).sameButWords hsame).withLogs hepoch hfreed hallocated)
    (fun k u _ hu => (hs.tenant k u hu).sameButWords hsame)
    (fun _ hi => .inl (hfreed ▸ hi)) fun _ hi => .inl (hallocated ▸ hi)

/-- An allocation. -/
theorem allocated (hs : s.Tenanted) (ho : s.open? h = some t) {size i : Nat}
    (hgranted : s.region.allocate? size = some (i, r')) (honce : r'.ReleasedOnce) :
    (s.put h (some { t with allocated := i :: t.allocated }) r').Tenanted := by
  have hgrows := Region.grows_of_allocate? hgranted
  obtain ⟨hhoused, hfree⟩ := hs.housed.allocate hgranted
  have htenant : ∀ k u, s.open? k = some u → u.Tenant r' := by
    intro k u hu
    refine (hs.tenant k u hu).mono (fun j _ hj => ?_) fun j _ n hn =>
      hn.allocate hs.housed hgranted
    rcases hj with ⟨n, hn⟩ | ⟨n, hn⟩
    · -- A slot that is marked belongs to a segment, so it is not the new one.
      refine .inl ⟨n, (hgrows.others j ?_).trans hn⟩
      rintro rfl
      exact hfree n (hs.housed.held j n (by rw [hn]; rfl))
    · exact .inr ⟨n, hn.allocate hs.housed hgranted⟩
  have hown := htenant h t ho
  refine hs.put ho rfl hgrows.collector_eq hhoused honce ⟨hown.freedOnce, hown.freed, ?_⟩
    (fun k u _ hu => htenant k u hu) (fun _ hj => .inl hj) fun j hj => ?_
  · intro j hj
    rcases List.mem_cons.1 hj with rfl | hold
    · exact ⟨_, Region.retains_allocate hs.housed hgranted t.epoch⟩
    · exact hown.allocated j hold
  · rcases List.mem_cons.1 hj with rfl | hold
    · refine .inr fun k u hu hmem => ?_
      obtain ⟨n, hn⟩ := (hs.tenant k u hu).allocated j hmem
      exact hfree n (hs.housed.held j n hn.holds)
    · exact .inl hold

/-- An attempt to allocate that fails. -/
theorem missed (hs : s.Tenanted) (hfails : s.region.Fails r') (honce : r'.ReleasedOnce) :
    Tenanted { s with region := r' } := by
  have hcollector : r'.collector = s.region.collector := by
    obtain ⟨table, -, rfl⟩ := hfails.inv
    rfl
  refine ⟨hs.timed.congr hcollector, hs.housed.fails hfails, honce, fun k u hu => ?_,
    hs.freedApart, hs.allocatedApart⟩
  refine (hs.tenant k u hu).mono (fun j _ hj => ?_) fun j _ n hn => hn.fails hfails
  rcases hj with ⟨n, hn⟩ | ⟨n, hn⟩
  · obtain ⟨table, hlookup, rfl⟩ := hfails.inv
    exact .inl ⟨n, (hlookup j).trans hn⟩
  · exact .inr ⟨n, hn.fails hfails⟩

/-- A free. -/
theorem freed (hs : s.Tenanted) (ho : s.open? h = some t) {i n : Nat}
    (hlive : s.region.table.lookup i = .live n)
    (honce : Region.ReleasedOnce { s.region with table := s.region.table.mark i }) :
    (s.put h (some { t with freed := i :: t.freed })
      { s.region with table := s.region.table.mark i }).Tenanted := by
  have hmarked : (s.region.table.mark i).lookup i = .freeing n := by
    refine (s.region.table.lookup_set_self i _).trans ?_
    rw [hlive]
    rfl
  -- The slot was live, so nobody has freed it yet.
  have hnew : ∀ k u, s.open? k = some u → i ∉ u.freed := by
    intro k u hu hmem
    rcases (hs.tenant k u hu).freed i hmem with ⟨m, hm⟩ | ⟨m, hm⟩
    · cases hlive.symm.trans hm
    · cases hlive.symm.trans hm.vacant
  have htenant : ∀ k u, s.open? k = some u →
      u.Tenant { s.region with table := s.region.table.mark i } := by
    intro k u hu
    refine (hs.tenant k u hu).mono (fun j hj hsurrendered => ?_) fun j _ m hm => hm.mark i
    rcases hsurrendered with ⟨m, hm⟩ | ⟨m, hm⟩
    · refine .inl ⟨m, (s.region.table.lookup_set_ne _ ?_).trans hm⟩
      rintro rfl
      exact hnew k u hu hj
    · exact .inr ⟨m, hm.mark i⟩
  have hown := htenant h t ho
  refine hs.put ho rfl rfl (hs.housed.mark hlive) honce
    ⟨List.nodup_cons.2 ⟨hnew h t ho, hown.freedOnce⟩, ?_, hown.allocated⟩
    (fun k u _ hu => htenant k u hu) (fun j hj => ?_) fun _ hj => .inl hj
  · intro j hj
    rcases List.mem_cons.1 hj with rfl | hold
    · exact .inl ⟨n, hmarked⟩
    · exact hown.freed j hold
  · rcases List.mem_cons.1 hj with rfl | hold
    · exact .inr hnew
    · exact .inl hold

/-- The end of a transaction. -/
theorem ended (hs : s.Tenanted) (ho : s.open? h = some t) (committed : Bool)
    (honce : (t.conclusion s.region committed).ReleasedOnce) :
    (s.put h none (t.conclusion s.region committed)).Tenanted := by
  have hown := hs.tenant h t ho
  refine ⟨?_, Transaction.housed_conclusion hs.housed hown.freedOnce hown.not_retired committed,
    honce, fun k u hu => ?_, hs.freedApart.put_none ho, hs.allocatedApart.put_none ho⟩
  · have htimed := hs.timed
    rw [pinnedIn_put_none (r := t.conclusion s.region committed) ho] at htimed
    exact Transaction.timed_conclusion htimed committed
  · obtain ⟨hu, hk⟩ := open?_of_put_none ho hu
    have hepoch := hs.epoch_le hu
    refine (hs.tenant k u hu).mono (fun i hi hsurrendered => ?_) fun i hi n hn =>
      hn.conclusion hepoch fun hmem =>
        hk (hs.allocatedApart k h u t i hu ho hi (Transaction.mem_emptied_iff.1 hmem).2)
    rcases hsurrendered with ⟨n, hn⟩ | ⟨n, hn⟩
    · by_cases hmem : i ∈ t.emptied committed
      · -- The transaction gives up what another one has freed.
        exact .inr ⟨n, Region.vacated_conclusion hs.housed (by rw [hn]; rfl) (by rw [hn]; rfl)
          hepoch hmem⟩
      · have hfreed : i ∉ t.freed := fun hmem => hk (hs.freedApart k h u t i hu ho hi hmem)
        refine .inl ⟨n, ?_⟩
        rw [region_put, t.lookup_conclusion, if_neg hmem, if_neg hfreed]
        exact hn
    · exact .inr ⟨n, hn.conclusion hepoch⟩

/-- The beginning of a transaction. -/
theorem began (hs : s.Tenanted) (hb : Begins s s' t) (honce : s'.region.ReleasedOnce) :
    s'.Tenanted := by
  have hentries : s'.region.collector.entries = s.region.collector.entries := by
    rw [hb.collector_eq]; rfl
  have hslots : s'.region.slotOf? = s.region.slotOf? := by
    funext n
    unfold Region.slotOf? Region.segment?
    rw [hb.segments_eq]
  refine ⟨⟨?_, ?_⟩, hs.housed.congr hb.table_eq hslots (by rw [hb.segments_eq]) hentries, honce,
    fun k u hu => ?_, hs.freedApart.began hb hb.unlogged.2.2.2,
    hs.allocatedApart.began hb hb.unlogged.2.2.1⟩
  · rw [hb.collector_eq]
    exact hs.timed.inOrder.later rfl rfl (Nat.le_refl _)
  · rw [hb.pinned, hb.collector_eq, hb.epoch_eq]
    exact hs.timed.tallies.enter
  · rcases hb.before hu with hu | ⟨-, rfl⟩
    · exact (hs.tenant k u hu).congr hb.table_eq hslots hentries
    · -- The new transaction has no slots yet.
      obtain ⟨-, -, hallocated, hfreed⟩ := hb.unlogged
      constructor
      · rw [hfreed]; exact List.nodup_nil
      · rw [hfreed]; exact fun _ hmem => nomatch hmem
      · rw [hallocated]; exact fun _ hmem => nomatch hmem

/-- A collection. -/
theorem collected (hs : s.Tenanted) (honce : s.region.collect.2.ReleasedOnce) :
    Tenanted { s with region := s.region.collect.2 } := by
  refine ⟨hs.timed.collect, hs.housed.collect hs.releasedOnce honce, honce, fun k u hu => ?_,
    hs.freedApart, hs.allocatedApart⟩
  have hpinned : s.pinnedIn u.epoch ≠ 0 := pinnedIn_ne_zero hu
  refine (hs.tenant k u hu).mono (fun i _ hsurrendered => ?_) fun i _ n hn =>
    hn.collect hs.timed hpinned
  rcases hsurrendered with ⟨n, hn⟩ | ⟨n, hn⟩
  · -- A slot in use is not unlinked.
    have hused : (s.region.table.lookup i).isOccupied = true := by rw [hn]; rfl
    have hretains := (hs.housed.retains hused (n := n) (by rw [hn]; rfl) u.epoch).collect hs.timed
      hpinned
    refine .inl ⟨n, ?_⟩
    rcases s.region.lookup_collect i with heq | hvacant
    · exact heq.trans hn
    · have hholds := hretains.holds
      rw [hvacant] at hholds
      cases hholds
  · exact .inr ⟨n, hn.collect hs.timed hpinned⟩

/-- Whatever is done, as long as no segment is released twice. -/
theorem effect (hs : s.Tenanted) (e : Effect orderly s events s')
    (honce : s'.region.ReleasedOnce) : s'.Tenanted := by
  cases e with
  | began identified => exact hs.began (begins_enter identified) honce
  | accessed isOpen readWrite found step =>
    obtain ⟨_, _, g, _, hbecomes, -, rfl, -⟩ := step.inv
    exact hs.sameButWords isOpen (Transaction.epoch_log ..) (Transaction.freed_log ..)
      (Transaction.allocated_log ..) hbecomes.toSameButWords honce
  | doomed isOpen => exact hs.sameButWords isOpen rfl rfl rfl (.refl _) honce
  | allocated isOpen readWrite whole granted => exact hs.allocated isOpen granted honce
  | missed fails => exact hs.missed fails honce
  | freed isOpen readWrite live removable => exact hs.freed isOpen live honce
  | ended isOpen valid gives => exact hs.ended isOpen _ honce
  | collected => exact hs.collected honce

theorem effects (hs : s.Tenanted) (chain : Effects orderly s events s')
    (honce : s'.region.ReleasedOnce) : s'.Tenanted := by
  induction chain with
  | nil => exact hs
  | snoc before last ih =>
    have hbefore := releasedOnce_before (.single last)
      (gone_le_effects before (Nat.le_of_eq hs.releasedOnce)) honce
    exact (ih hbefore).effect last honce

end Tenanted

/-! ## The beginning -/

/-- In a new session nothing was released, and nobody is open. -/
theorem tenanted_of_create {settings : Settings} (h : create settings = .ok s) : s.Tenanted := by
  have hs := sound_of_create h
  have hnobody : ∀ {k t}, s.open? k ≠ some t := by
    intro k t ho
    rw [open?_of_create h] at ho
    cases ho
  obtain ⟨r, hcreate, rfl⟩ := create_inv h
  obtain ⟨-, i, hgranted⟩ := Region.create_inv hcreate
  have hempty := Region.housed_empty settings
  refine ⟨⟨hs.inOrder, hs.tallies⟩, (hempty.allocate hgranted).1, ?_,
    fun k t ho => absurd ho hnobody, fun k j t u i ho => absurd ho hnobody,
    fun k j t u i ho => absurd ho hnobody⟩
  obtain ⟨table, -, rfl⟩ := Region.allocate?_inv hgranted
  rfl

end Session

/-- No orderly run releases a segment twice. -/
theorem Recorded.releasedOnce {hist : History} {s : Session} (h : Recorded hist s) :
    s.region.ReleasedOnce :=
  h.invariant (fun hcreate => (Session.tenanted_of_create hcreate).releasedOnce)
    fun hs honce e => hs.releasedOnce_effect honce e

end TransactionalMemory
