import TransactionalMemory.Proofs.Session.Dooming
import TransactionalMemory.Proofs.Session.Tenancy

/-! # Readers are served until they end

    A read-only transaction can go on reading a segment that was in use while it
    was open, whatever the others do: if one of them frees the segment and
    commits, the slot holds the segment for as long as the reader pins its epoch.
    The only other way out of a slot is that the transaction which allocated the
    segment ends without a commit. So a segment lasts if that transaction has
    committed, or if it is the permanent one. -/

namespace TransactionalMemory

namespace Session

variable {orderly : Prop} {s s' s'' : Session} {h k : Handle} {t t' u u' : Transaction}
  {r' : Region} {events : History} {n i : Nat} {owners : Handle → Prop}

/-! ## What a segment is from its allocation on -/

/-- Segment `n`, which is allocated already, has neither changed its size nor
    found another slot or another owner. -/
structure Ages (n : Nat) (s s' : Session) : Prop where
  size : s.region.segments.size ≤ s'.region.segments.size
  layout : ∀ seg', s'.region.segment? n = some seg' →
    ∃ seg, s.region.segment? n = some seg ∧ seg'.layout = seg.layout
  slot : ∀ i, (s'.region.table.lookup i).segment? = some n →
    (s.region.table.lookup i).segment? = some n
  owner : ∀ i h t', (s'.region.table.lookup i).segment? = some n → s'.open? h = some t' →
    i ∈ t'.allocated → ∃ t, s.open? h = some t ∧ i ∈ t.allocated

namespace Ages

theorem refl (n : Nat) (s : Session) : Ages n s s :=
  ⟨Nat.le_refl _, fun seg hseg => ⟨seg, hseg, rfl⟩, fun _ hi => hi,
    fun _ _ t _ ho hi => ⟨t, ho, hi⟩⟩

theorem trans (h : Ages n s s') (h' : Ages n s' s'') : Ages n s s'' where
  size := Nat.le_trans h.size h'.size
  layout := by
    intro seg'' hseg''
    obtain ⟨seg', hseg', hlayout'⟩ := h'.layout seg'' hseg''
    obtain ⟨seg, hseg, hlayout⟩ := h.layout seg' hseg'
    exact ⟨seg, hseg, hlayout'.trans hlayout⟩
  slot := fun i hi => h.slot i (h'.slot i hi)
  owner := by
    intro i k t'' hi ho hmem
    obtain ⟨t', ho', hmem'⟩ := h'.owner i k t'' hi ho hmem
    exact h.owner i k t' (h'.slot i hi) ho' hmem'

/-- The segments are laid out as before. -/
theorem of_layout (hsize : s'.region.segments.size = s.region.segments.size)
    (hlayout : (s'.region.segment? n).map Segment.layout
      = (s.region.segment? n).map Segment.layout)
    (hslot : ∀ i, (s'.region.table.lookup i).segment? = some n →
      (s.region.table.lookup i).segment? = some n)
    (howner : ∀ h t', s'.open? h = some t' →
      ∃ t, s.open? h = some t ∧ ∀ i ∈ t'.allocated, i ∈ t.allocated) : Ages n s s' where
  size := Nat.le_of_eq hsize.symm
  layout := by
    intro seg' hseg'
    rw [hseg'] at hlayout
    obtain ⟨seg, hseg, heq⟩ := Option.map_eq_some_iff.1 hlayout.symm
    exact ⟨seg, hseg, heq.symm⟩
  slot := hslot
  owner := by
    intro i h t' _ ho hmem
    obtain ⟨t, ho₀, hsub⟩ := howner h t' ho
    exact ⟨t, ho₀, hsub i hmem⟩

/-- The same where one transaction goes on. -/
theorem put (ho : s.open? h = some t) (hsize : r'.segments.size = s.region.segments.size)
    (hlayout : (r'.segment? n).map Segment.layout = (s.region.segment? n).map Segment.layout)
    (hslot : ∀ i, (r'.table.lookup i).segment? = some n →
      (s.region.table.lookup i).segment? = some n)
    (hallocated : t'.allocated = t.allocated) : Ages n s (s.put h (some t') r') := by
  refine of_layout hsize hlayout hslot fun k u' hu' => ?_
  by_cases hk : k = h
  · subst hk
    rw [open?_put_self ho] at hu'
    cases hu'
    exact ⟨t, ho, fun i hi => hallocated ▸ hi⟩
  · exact ⟨u', (open?_put_ne hk).symm.trans hu', fun _ hi => hi⟩

end Ages

/-- No effect does more to a segment that there is than to age it. -/
theorem ages_effect (hn : n < s.region.segments.size) (e : Effect orderly s events s') :
    Ages n s s' := by
  cases e with
  | began identified =>
    have hb := begins_enter identified
    refine ⟨Nat.le_of_eq (by rw [hb.segments_eq]), fun seg' hseg' => ?_, fun i hi => ?_,
      fun i k u _ hu hmem => ?_⟩
    · rw [Region.segment?, hb.segments_eq] at hseg'
      exact ⟨seg', hseg', rfl⟩
    · rwa [hb.table_eq] at hi
    · rcases hb.before hu with hold | ⟨-, rfl⟩
      · exact ⟨u, hold, hmem⟩
      · -- The new transaction has allocated nothing.
        cases hmem
  | @accessed h t t' a r' i isOpen readWrite found step =>
    obtain ⟨_, _, _, _, hbecomes, _, rfl, _⟩ := step.inv
    have hsame := hbecomes.toSameButWords
    exact .put isOpen hsame.size (hsame.layout n) (fun i hi => by rwa [hsame.table_eq] at hi)
      (t.allocated_log ..)
  | doomed isOpen => exact .put isOpen rfl rfl (fun _ hi => hi) rfl
  | @allocated h t r' size j isOpen readWrite whole granted =>
    have hgrows := Region.grows_of_allocate? granted
    -- What is in the new slot is the new segment.
    have hne : ∀ i, (r'.table.lookup i).segment? = some n → i ≠ j := by
      rintro i hi rfl
      rw [hgrows.self] at hi
      exact absurd (Option.some.inj hi) (Nat.ne_of_gt hn)
    refine ⟨?_, fun seg' hseg' => ?_, fun i hi => ?_, fun i k u' hi hu' hmem => ?_⟩
    · rw [region_put, hgrows.segments_eq, Array.size_push]
      exact Nat.le_succ _
    · rw [region_put, hgrows.segment?_eq, if_neg (Nat.ne_of_lt hn)] at hseg'
      exact ⟨seg', hseg', rfl⟩
    · exact (congrArg Slot.segment? (hgrows.others i (hne i hi))).symm.trans hi
    · by_cases hk : k = h
      · subst hk
        rw [open?_put_self isOpen] at hu'
        cases hu'
        exact ⟨t, isOpen, (List.mem_cons.1 hmem).resolve_left (hne i hi)⟩
      · exact ⟨u', (open?_put_ne hk).symm.trans hu', hmem⟩
  | missed fails =>
    obtain ⟨table, hlookup, rfl⟩ := fails.inv
    exact .of_layout rfl rfl (fun i hi => hlookup i ▸ hi) fun k u hu => ⟨u, hu, fun _ hi => hi⟩
  | @freed h t j m isOpen readWrite live removable =>
    exact .put isOpen rfl rfl (fun i hi => by rwa [s.region.table.segment?_mark] at hi) rfl
  | @ended h t committed isOpen valid gives =>
    have hsettles := t.settles_conclusion s.region committed
    refine .of_layout hsettles.size (hsettles.layout n) (fun i hi => ?_)
      fun k u' hu' => ⟨u', (open?_of_put_none isOpen hu').1, fun _ hi => hi⟩
    rw [region_put, t.segment?_conclusion] at hi
    split at hi
    · cases hi
    · exact hi
  | collected =>
    refine ⟨Nat.le_of_eq s.region.drops_collect.size.symm, fun seg' hseg' => ?_, fun i hi => ?_,
      fun i k u _ hu hmem => ⟨u, hu, hmem⟩⟩
    · rcases s.region.drops_collect.segments n with heq | hnone
      · exact ⟨seg', heq.symm.trans hseg', rfl⟩
      · cases hnone.symm.trans hseg'
    · rcases s.region.lookup_collect i with heq | hvacant
      · exact (congrArg Slot.segment? heq).symm.trans hi
      · change (s.region.collect.2.table.lookup i).segment? = some n at hi
        rw [hvacant] at hi
        cases hi

theorem ages_effects (hn : n < s.region.segments.size) (e : Effects orderly s events s') :
    Ages n s s' := by
  induction e with
  | nil => exact .refl n s
  | snoc before last ih => exact ih.trans (ages_effect (Nat.lt_of_lt_of_le hn ih.size) last)

/-- Whoever can still give up segment `n` is one of the `owners`. -/
def OwnedBy (s : Session) (n : Nat) (owners : Handle → Prop) : Prop :=
  ∀ i h t, (s.region.table.lookup i).segment? = some n → s.open? h = some t →
    i ∈ t.allocated → owners h

theorem OwnedBy.ages (howned : s.OwnedBy n owners) (hages : Ages n s s') :
    s'.OwnedBy n owners := by
  intro i h t' hi ho hmem
  obtain ⟨t, ho₀, hmem₀⟩ := hages.owner i h t' hi ho hmem
  exact howned i h t (hages.slot i hi) ho₀ hmem₀

/-! ## A slot under a reader -/

/-- As long as somebody is open, a slot keeps the segment that it has held, unless
    an owner of the segment gives it up. -/
theorem retains_effect (hs : s.Tenanted) (e : Effect orderly s events s')
    (hu : s.open? k = some u) (howned : s.OwnedBy n owners)
    (hgives : ∀ h, owners h → .ended h false ∉ events) (hr : s.region.Retains u.epoch i n) :
    s'.region.Retains u.epoch i n := by
  cases e with
  | began identified =>
    have hb := begins_enter identified
    exact hr.congr hb.table_eq (by rw [hb.collector_eq]; rfl)
  | accessed isOpen readWrite found step =>
    obtain ⟨_, _, _, _, hbecomes, _⟩ := step.inv
    have hsame := hbecomes.toSameButWords
    exact hr.congr hsame.table_eq (congrArg Collector.entries hsame.collector_eq)
  | doomed isOpen => exact hr
  | allocated isOpen readWrite whole granted => exact hr.allocate hs.housed granted
  | missed fails => exact hr.fails fails
  | @freed h t j m isOpen readWrite live removable => exact hr.mark j
  | @ended h t committed isOpen valid gives =>
    refine hr.conclusion (hs.epoch_le hu) fun hmem => ?_
    obtain ⟨rfl, hmem⟩ := Transaction.mem_emptied_iff.1 hmem
    exact hgives h (howned i h t hr.holds isOpen hmem) List.mem_cons_self
  | collected => exact hr.collect hs.timed (pinnedIn_ne_zero hu)

theorem retains_effects (hs : s.Tenanted) (e : Effects orderly s events s')
    (honce : s'.region.ReleasedOnce) (hu : s.open? k = some u) (hu' : s'.open? k = some u')
    (hn : n < s.region.segments.size) (howned : s.OwnedBy n owners)
    (hgives : ∀ h, owners h → .ended h false ∉ events) (hr : s.region.Retains u.epoch i n) :
    s'.region.Retains u.epoch i n := by
  induction e generalizing u' with
  | nil => exact hr
  | snoc before last ih =>
    -- The reader is open before the last effect too, in the epoch in which it began.
    obtain ⟨v, hv, -⟩ := open_between before last hu hu'
    have hepoch := (continues_effects before hu hv).epoch_eq
    have hbefore := releasedOnce_before (.single last)
      (gone_le_effects before (Nat.le_of_eq hs.releasedOnce)) honce
    have hmiddle := ih hbefore hv fun h hh hmem => hgives h hh (List.mem_append_right _ hmem)
    rw [← hepoch] at hmiddle ⊢
    exact retains_effect (hs.effects before hbefore) last hv (howned.ages (ages_effects hn before))
      (fun h hh hmem => hgives h hh (List.mem_append_left _ hmem)) hmiddle

/-! ## Segments that last -/

/-- A transaction ends once. -/
structure EndsOnce (hist : History) (s : Session) : Prop where
  closed : ∀ k committed, .ended k committed ∈ hist →
    k < s.transactions.size ∧ s.open? k = none
  once : ∀ k, .ended k true ∈ hist → .ended k false ∉ hist

theorem EndsOnce.effect {hist : History} (he : EndsOnce hist s) (e : Effect orderly s events s') :
    EndsOnce (events ++ hist) s' := by
  have hsize := size_effect e
  -- Whoever ended before is not open, so it neither ends again nor is open later.
  have hold : ∀ k committed, .ended k committed ∈ hist →
      (k < s'.transactions.size ∧ s'.open? k = none) ∧ ∀ c, .ended k c ∉ events := by
    intro k committed hmem
    obtain ⟨hlt, hclosed⟩ := he.closed k committed hmem
    refine ⟨⟨Nat.lt_of_lt_of_le hlt hsize, ?_⟩, fun c hc => ?_⟩
    · cases hu : s'.open? k with
      | none => rfl
      | some u =>
        rcases continues_effect e hu with ⟨u₀, hu₀, -⟩ | ⟨hnew, -⟩
        · cases hclosed.symm.trans hu₀
        · exact absurd hnew (Nat.ne_of_lt hlt)
    · obtain ⟨u, hu, -⟩ := ended_of_effect e hc
      cases hclosed.symm.trans hu
  have hnew : ∀ k committed, .ended k committed ∈ events →
      (k < s'.transactions.size ∧ s'.open? k = none) ∧ events = [.ended k committed] := by
    intro k committed hmem
    obtain ⟨u, hu, hevents, rfl⟩ := ended_of_effect e hmem
    exact ⟨⟨Nat.lt_of_lt_of_le (lt_size_of_open hu) hsize, open?_put_self hu⟩, hevents⟩
  constructor
  · intro k committed hmem
    rcases List.mem_append.1 hmem with hmem | hmem
    · exact (hnew k committed hmem).1
    · exact (hold k committed hmem).1
  · intro k htrue hfalse
    rcases List.mem_append.1 htrue with htrue | htrue <;>
      rcases List.mem_append.1 hfalse with hfalse | hfalse
    · rw [(hnew k true htrue).2] at hfalse
      cases List.mem_singleton.1 hfalse
    · exact (hold k false hfalse).2 true htrue
    · exact (hold k true htrue).2 false hfalse
    · exact he.once k htrue hfalse

theorem endsOnce_effects (e : Effects orderly s events s') : EndsOnce events s' := by
  have hstart : EndsOnce [] s := ⟨fun _ _ hmem => (nomatch hmem), fun _ hmem => (nomatch hmem)⟩
  have hend := e.induct (P := EndsOnce) (fun e he => he.effect e) hstart
  rwa [List.append_nil] at hend

/-- Segment `n`, which is there after the operations `before`, is the permanent
    one, or was allocated by a transaction that has committed at the end of the
    run. Segments are numbered in the order in which they are allocated. -/
inductive Lasting (start : Session) (before operations : List Operation) (n : Nat) : Prop where
  | permanent (first : n = 0)
  | committed {first rest : List Operation} {k : Handle} {size : Nat} {memory : Bool} {a : Address}
      (allocates : before = first ++ .alloc k size memory :: rest)
      (granted : ((start.run first).2.alloc k size memory).1 = some (.ok a))
      (number : n = (start.run first).2.region.segments.size)
      (commits : .ended k true ∈ start.record [] operations)

/-- A new segment is owned by the transaction that allocates it. -/
theorem ownedBy_alloc {size : Nat} {memory : Bool} {a : Address}
    (hgranted : (s.alloc k size memory).1 = some (.ok a))
    (hs : (s.alloc k size memory).2.Tenanted) :
    s.region.segments.size < (s.alloc k size memory).2.region.segments.size ∧
      (s.alloc k size memory).2.OwnedBy s.region.segments.size (· = k) := by
  cases ho : s.open? k with
  | none =>
    rw [alloc, access, ho] at hgranted
    cases hgranted
  | some t =>
    rw [alloc, access_of_open _ ho] at hgranted hs ⊢
    cases t.alloc_cases s.region size memory with
    | refused doomed heq => rw [heq] at hgranted; cases hgranted
    | failed undoomed why heq => rw [heq] at hgranted; cases hgranted
    | scarce undoomed readWrite attempt heq => rw [heq] at hgranted; cases hgranted
    | @granted slot r' undoomed readWrite whole enough found heq =>
      rw [heq] at hs ⊢
      have hgrows := Region.grows_of_allocate? found
      refine ⟨?_, fun j h u hj hu hmem => ?_⟩
      · rw [region_put, hgrows.segments_eq, Array.size_push]
        exact Nat.lt_succ_self _
      · -- The segment is in one slot, which is in one log.
        have hself : r'.slotOf? s.region.segments.size = some slot :=
          hs.housed.held slot _ (congrArg Slot.segment? hgrows.self)
        have hslot : r'.slotOf? s.region.segments.size = some j := hs.housed.held j _ hj
        cases hself.symm.trans hslot
        exact hs.allocatedApart h k u _ slot hu (open?_put_self ho) hmem List.mem_cons_self

/-- Whoever may own a lasting segment has committed. -/
theorem ownedBy_of_lasting {settings : Settings} {start : Session}
    (hcreate : create settings = .ok start) {before operations : List Operation}
    (hlasting : Lasting start before operations n)
    (honce : (start.run before).2.region.ReleasedOnce) :
    ∃ owners, (start.run before).2.OwnedBy n owners ∧
      ∀ h, owners h → .ended h true ∈ start.record [] operations := by
  have hsteady := steady_of_create hcreate
  have hstart := tenanted_of_create hcreate
  cases hlasting with
  | permanent first =>
    subst first
    have heffects : Effects False start _ _ := effects_record hsteady before nofun
    have hheld := hstart.housed.held Region.permanentSlot 0 (by
      rw [lookup_of_create hcreate, if_pos rfl]
      rfl)
    have hnobody : start.OwnedBy 0 fun _ => False := by
      intro i h t _ ho
      rw [open?_of_create hcreate] at ho
      cases ho
    exact ⟨_, hnobody.ages (ages_effects (Region.lt_size_of_slotOf? hheld) heffects),
      fun h hfalse => hfalse.elim⟩
  | @committed first rest k size memory a allocates granted number commits =>
    subst allocates number
    rw [run_cut] at honce ⊢
    have hfirst : Effects False start _ _ := effects_record hsteady first nofun
    have hstep : Effects False _ _ _ :=
      effects_step (hsteady.effects hfirst) (.alloc k size memory) nofun
    have htoAlloc := hfirst.trans hstep
    have hrest : Effects False _ _ _ := effects_record (hsteady.effects htoAlloc) rest nofun
    have honce' := releasedOnce_before hrest
      (gone_le_effects htoAlloc (Nat.le_of_eq hstart.releasedOnce)) honce
    obtain ⟨hlt, howned⟩ := ownedBy_alloc granted (hstart.effects htoAlloc honce')
    exact ⟨_, howned.ages (ages_effects hlt hrest), fun h hh => hh ▸ commits⟩

/-! ## Reading and committing -/

/-- No read-only transaction observes anything. -/
def ReadersUnlogged (s : Session) : Prop :=
  ∀ h t, s.open? h = some t → t.isReadOnly = true → t.observed = []

theorem ReadersUnlogged.effect (hs : s.ReadersUnlogged) (e : Effect orderly s events s') :
    s'.ReadersUnlogged := by
  -- A transaction that is put back is no reader, or observes no more than before.
  have hput : ∀ {h : Handle} {t t' : Transaction} {r' : Region}, s.open? h = some t →
      (t'.isReadOnly = true → t.isReadOnly = true ∧ t'.observed = t.observed) →
      (s.put h (some t') r').ReadersUnlogged := by
    intro h t t' r' ho hgoes k u hu hro
    by_cases hk : k = h
    · rw [hk, open?_put_self ho] at hu
      cases hu
      obtain ⟨hro, heq⟩ := hgoes hro
      rw [heq, hs h t ho hro]
    · rw [open?_put_ne hk] at hu
      exact hs k u hu hro
  have hwriter : ∀ {t t' : Transaction} {P : Prop}, t.isReadOnly = false → t'.mode = t.mode →
      t'.isReadOnly = true → P := by
    intro t t' P hrw hmode hro
    rw [Transaction.isReadOnly, hmode] at hro
    cases hrw.symm.trans hro
  cases e with
  | began identified =>
    have hb := begins_enter identified
    intro k u hu hro
    rcases hb.before hu with hold | ⟨-, rfl⟩
    · exact hs k u hold hro
    · rfl
  | accessed isOpen readWrite found step =>
    obtain ⟨_, _, _, _, _, _, rfl, _⟩ := step.inv
    exact hput isOpen (hwriter readWrite (Transaction.mode_log ..))
  | doomed isOpen => exact hput isOpen fun hro => ⟨hro, rfl⟩
  | allocated isOpen readWrite whole granted => exact hput isOpen (hwriter readWrite rfl)
  | missed fails => exact hs
  | freed isOpen readWrite live removable => exact hput isOpen (hwriter readWrite rfl)
  | ended isOpen valid gives => exact fun k u hu => hs k u (open?_of_put_none isOpen hu).1
  | collected => exact hs

/-- What is so of transaction `h`, which is open at the end of a run and read-only. -/
structure Served (start : Session) (operations : List Operation) (h : Handle) : Prop where
  /-- Let segment `n` have been in slot `i`, live or marked as being freed, at a
      moment when the transaction was open. If the segment lasts, the transaction
      reads any range inside it, as long as it is not doomed: the committed
      values, whatever has been done in between. This is so unless a segment was
      released twice, which no orderly run does. -/
  reads : (start.run operations).2.region.ReleasedOnce →
    ∀ before after i n, operations = before ++ after →
    ((start.run before).2.open? h).isSome →
    ((start.run before).2.region.table.lookup i).isOccupied = true →
    ((start.run before).2.region.table.lookup i).segment? = some n →
    Lasting start before operations n →
    (∀ t ∈ (start.run operations).2.open? h, t.doomed = false) →
    ∀ a length, a.slot? = some i → (start.run before).2.Inside a length →
      ∃ seg, (start.run operations).2.region.segment? n = some seg ∧
        ((start.run operations).2.read h a length).1 =
          some (.ok (Transaction.committedWords seg
            (a.offset / (start.run operations).2.region.wordSize)
            (length / (start.run operations).2.region.wordSize)))
  /-- If it has not given up and none of its operations has failed, it commits. -/
  commits : start.Spares h operations → ((start.run operations).2.finish h).1 = some true

/-- A segment that was in use while a transaction was open, and that lasts, is
    still in its slot, as large as it was. -/
theorem retains_run {settings : Settings} {start : Session}
    (hcreate : create settings = .ok start) {before after : List Operation}
    (honce : (start.run (before ++ after)).2.region.ReleasedOnce)
    (hopen : ((start.run before).2.open? h).isSome)
    (ho : (start.run (before ++ after)).2.open? h = some t)
    (hused : ((start.run before).2.region.table.lookup i).isOccupied = true)
    (hn : ((start.run before).2.region.table.lookup i).segment? = some n)
    (hlasting : Lasting start before (before ++ after) n) :
    ((start.run (before ++ after)).2.region.table.lookup i).segment? = some n ∧
      ∃ seg seg', (start.run before).2.region.segment? n = some seg ∧
        (start.run (before ++ after)).2.region.segment? n = some seg' ∧ seg'.size = seg.size := by
  have hsteady := steady_of_create hcreate
  have hstart := tenanted_of_create hcreate
  obtain ⟨t₀, ho₀⟩ := Option.isSome_iff_exists.1 hopen
  have heffects : Effects False start _ _ := effects_record hsteady (before ++ after) nofun
  have hbefore : Effects False start _ _ := effects_record hsteady before nofun
  have hafter : Effects False _ _ _ := effects_record (hsteady.effects hbefore) after nofun
  rw [run_append] at honce ho ⊢
  have honce₀ := releasedOnce_before hafter
    (gone_le_effects hbefore (Nat.le_of_eq hstart.releasedOnce)) honce
  have hs := hstart.effects hbefore honce₀
  have hlt := Region.lt_size_of_slotOf? (hs.housed.held i n hn)
  obtain ⟨owners, howned, hcommitted⟩ := ownedBy_of_lasting hcreate hlasting honce₀
  -- An owner has committed, so it does not give up the segment in between.
  have hgives : ∀ k, owners k → .ended k false ∉ (start.run before).2.record [] after := by
    intro k hk hfalse
    refine (endsOnce_effects heffects).once k (hcommitted k hk) ?_
    rw [record_append, record_eq_append]
    exact List.mem_append_left _ hfalse
  have hretains := retains_effects hs hafter honce ho₀ ho hlt howned hgives
    (hs.housed.retains hused hn t₀.epoch)
  obtain ⟨seg', hseg'⟩ := (hsteady.effects (hbefore.trans hafter)).backed.exists_segment
    hretains.holds
  obtain ⟨seg, hseg, hlayout⟩ := (ages_effects hlt hafter).layout seg' hseg'
  exact ⟨hretains.holds, seg, seg', hseg, hseg', congrArg (fun l => l.2.1) hlayout⟩

/-- A read-only transaction is served until it ends, whatever the others do. -/
theorem run_serves_readers {settings : Settings} {start : Session}
    (hcreate : create settings = .ok start) (operations : List Operation)
    (hreader : ((start.run operations).2.open? h).map Transaction.isReadOnly = some true) :
    Served start operations h := by
  obtain ⟨t, ho, hro⟩ := Option.map_eq_some_iff.1 hreader
  have hsteady := steady_of_create hcreate
  have hnobody : ∀ {k u}, start.open? k ≠ some u := by
    intro k u hu
    rw [open?_of_create hcreate] at hu
    cases hu
  constructor
  case reads =>
    rintro honce before after i n rfl hopen hused hn hlasting hundoomed a length ha hinside
    obtain ⟨hn', seg, seg', hseg, hseg', hsize⟩ :=
      retains_run hcreate honce hopen ho hused hn hlasting
    have hbefore : Effects False start _ _ := effects_record hsteady before nofun
    have hafter : Effects False _ _ _ := effects_record (hsteady.effects hbefore) after nofun
    have hin := hinside i n seg ha hn hseg
    rw [← hsize, ← wordSize_effects hafter] at hin
    rw [run_append] at ho hundoomed hn' hseg' ⊢
    refine ⟨seg', hseg', ?_⟩
    rw [Session.read, access_of_open _ ho]
    exact congrArg some
      (Transaction.read_of_readOnly hro (hundoomed t ho) ha hn' hseg' hin)
  case commits =>
    intro hspared
    have heffects : Effects False start _ _ := effects_record hsteady operations nofun
    have hundoomed := undoomed_run (fun t ho => absurd ho hnobody) hspared t ho
    have hunlogged : (start.run operations).2.ReadersUnlogged :=
      heffects.keep (fun e hs => hs.effect e) fun k u hu => absurd hu hnobody
    rw [finish_of_open ho, hundoomed, Transaction.observationsHold, hunlogged h t ho hro]
    rfl

/-- A reader begins when a segment is marked as being freed. -/
def duringFree : List Operation :=
  [.begin false, .alloc 0 8 true, .write 0 (.ofParts 1 0) [1, 2, 3, 4, 5, 6, 7, 8], .finish 0,
    .begin false, .free 1 (.ofParts 1 0), .begin true]

/-- The free is committed, and somebody allocates another segment. -/
def afterFree : List Operation :=
  [.finish 1, .collect, .collect, .begin false, .alloc 3 8 true, .finish 3, .collect]

/-- The reader still reads the segment, whose slot is retired, and commits. -/
theorem run_serves_readers_after_free :
    ∃ start, create { size := 8, align := 8 } = .ok start ∧
      ((start.run (duringFree ++ afterFree)).2.open? 2).map Transaction.isReadOnly = some true ∧
      (start.run (duringFree ++ afterFree)).2.region.ReleasedOnce ∧
      (start.run duringFree).2.region.table.lookup 1 = .freeing 1 ∧
      (start.run (duringFree ++ afterFree)).2.region.table.lookup 1 = .retired 1 ∧
      (∃ seg, (start.run (duringFree ++ afterFree)).2.region.segment? 1 = some seg ∧
        ((start.run (duringFree ++ afterFree)).2.read 2 (.ofParts 1 0) 8).1 =
          some (.ok (Transaction.committedWords seg 0 1))) ∧
      ((start.run (duringFree ++ afterFree)).2.finish 2).1 = some true := by
  refine ⟨_, rfl, by decide +kernel, by decide +kernel, by decide +kernel, by decide +kernel, ?_⟩
  have h := @run_serves_readers 2 { size := 8, align := 8 } _ rfl (duringFree ++ afterFree)
    (by decide +kernel)
  refine ⟨?_, h.commits (by decide +kernel)⟩
  obtain ⟨seg, hseg, hread⟩ := h.reads (by decide +kernel) duringFree afterFree 1 1 rfl
    (by decide +kernel) (by decide +kernel) (by decide +kernel)
    (@Lasting.committed _ _ _ _ [.begin false] (duringFree.drop 2) 0 8 true (.ofParts 1 0) rfl
      (by decide +kernel) (by decide +kernel) (by decide +kernel))
    (by decide +kernel) (.ofParts 1 0) 8 rfl (by decide +kernel)
  refine ⟨seg, hseg, hread.trans ?_⟩
  have hwords {first count : Nat} (hfirst : first = 0) (hcount : count = 1) :
      Transaction.committedWords seg first count = Transaction.committedWords seg 0 1 := by
    rw [hfirst, hcount]
  exact congrArg (some ∘ Except.ok) (hwords (by decide +kernel) (by decide +kernel))

end Session

end TransactionalMemory
