import TransactionalMemory.Proofs.Session.Steadiness

/-! # Open transactions go on

    What the operations of other transactions, and its own, cannot take from an
    open transaction: its mode, its epoch, the entries of its logs, and the
    committed values of the words that it has claimed. -/

namespace TransactionalMemory

/-- What a transaction keeps for as long as it is open. -/
structure Transaction.Continues (t t' : Transaction) : Prop where
  mode_eq : t'.mode = t.mode
  epoch_eq : t'.epoch = t.epoch
  doomed : t.doomed = true → t'.doomed = true
  touched : ∀ ref ∈ t.touched, ref ∈ t'.touched
  observed : ∀ o ∈ t.observed, o ∈ t'.observed
  freed : ∀ i ∈ t.freed, i ∈ t'.freed
  allocated : ∀ i ∈ t.allocated, i ∈ t'.allocated

namespace Transaction.Continues

variable {t t' t'' : Transaction}

theorem refl (t : Transaction) : t.Continues t :=
  ⟨rfl, rfl, fun h => h, fun _ h => h, fun _ h => h, fun _ h => h, fun _ h => h⟩

theorem trans (h : t.Continues t') (h' : t'.Continues t'') : t.Continues t'' where
  mode_eq := h'.mode_eq.trans h.mode_eq
  epoch_eq := h'.epoch_eq.trans h.epoch_eq
  doomed := h'.doomed ∘ h.doomed
  touched := fun ref href => h'.touched ref (h.touched ref href)
  observed := fun o ho => h'.observed o (h.observed o ho)
  freed := fun i hi => h'.freed i (h.freed i hi)
  allocated := fun i hi => h'.allocated i (h.allocated i hi)

theorem log (t : Transaction) (ref : WordRef) (g : Grant) : t.Continues (t.log ref g) := by
  refine ⟨t.mode_log .., t.epoch_log .., by simp, fun _ hmem => ?_, fun _ hmem => ?_, by simp,
    by simp⟩
  · cases g with
    | claimed => exact List.mem_cons_of_mem _ hmem
    | owned => exact hmem
    | observed seq => exact hmem
  · cases g with
    | claimed => exact hmem
    | owned => exact hmem
    | observed seq => exact List.mem_cons_of_mem _ hmem

theorem doom (t : Transaction) : t.Continues t.doom :=
  ⟨rfl, rfl, fun _ => rfl, fun _ h => h, fun _ h => h, fun _ h => h, fun _ h => h⟩

theorem allocate (t : Transaction) (i : Nat) :
    t.Continues { t with allocated := i :: t.allocated } :=
  ⟨rfl, rfl, fun h => h, fun _ h => h, fun _ h => h, fun _ h => h,
    fun _ h => List.mem_cons_of_mem _ h⟩

theorem free (t : Transaction) (i : Nat) : t.Continues { t with freed := i :: t.freed } :=
  ⟨rfl, rfl, fun h => h, fun _ h => h, fun _ h => h, fun _ h => List.mem_cons_of_mem _ h,
    fun _ h => h⟩

end Transaction.Continues

namespace Session

variable {orderly : Prop} {s s' : Session} {h k : Handle} {u u' : Transaction} {events : History}

/-- Handles are never given out twice. -/
theorem size_effect (e : Effect orderly s events s') :
    s.transactions.size ≤ s'.transactions.size := by
  cases e with
  | began identified =>
    rw [(begins_enter identified).size]
    exact Nat.le_succ _
  | accessed isOpen readWrite found step => exact Nat.le_of_eq (size_put ..).symm
  | doomed isOpen => exact Nat.le_of_eq (size_put ..).symm
  | allocated isOpen readWrite whole granted => exact Nat.le_of_eq (size_put ..).symm
  | missed fails => exact Nat.le_refl _
  | freed isOpen readWrite live removable => exact Nat.le_of_eq (size_put ..).symm
  | ended isOpen valid gives => exact Nat.le_of_eq (size_put ..).symm
  | collected => exact Nat.le_refl _

/-- If one transaction that goes on is put back, every transaction goes on. -/
theorem continues_put {t t' : Transaction} {r : Region} (ho : s.open? h = some t)
    (hgoes : t.Continues t') (hu : (s.put h (some t') r).open? k = some u') :
    ∃ u, s.open? k = some u ∧ u.Continues u' := by
  by_cases hk : k = h
  · subst hk
    rw [open?_put_self ho] at hu
    cases hu
    exact ⟨t, ho, hgoes⟩
  · rw [open?_put_ne hk] at hu
    exact ⟨u', hu, .refl u'⟩

/-- Whoever is open after an effect was open before and goes on, unless it is new. -/
theorem continues_effect (e : Effect orderly s events s') (hu : s'.open? k = some u') :
    (∃ u, s.open? k = some u ∧ u.Continues u') ∨
      (k = s.transactions.size ∧ events = [.began k]) := by
  cases e with
  | began identified =>
    rcases (begins_enter identified).before hu with hold | ⟨hk, _⟩
    · exact .inl ⟨u', hold, .refl u'⟩
    · exact .inr ⟨hk, by rw [hk]⟩
  | @accessed h t t' a r' i isOpen readWrite found step =>
    obtain ⟨_, _, _, _, _, _, rfl, _⟩ := step.inv
    exact .inl (continues_put isOpen (.log t _ _) hu)
  | @doomed h t isOpen => exact .inl (continues_put isOpen (.doom t) hu)
  | @allocated h t r' size i isOpen readWrite whole granted =>
    exact .inl (continues_put isOpen (.allocate t i) hu)
  | missed fails => exact .inl ⟨u', hu, .refl u'⟩
  | @freed h t i n isOpen readWrite live removable =>
    exact .inl (continues_put isOpen (.free t i) hu)
  | @ended h t committed isOpen valid gives =>
    exact .inl ⟨u', (open?_of_put_none isOpen hu).1, .refl u'⟩
  | collected => exact .inl ⟨u', hu, .refl u'⟩

/-- Whoever is open before an effect goes on, unless this is its end. -/
theorem open_after_effect (e : Effect orderly s events s') (hu : s.open? k = some u) :
    (∃ u', s'.open? k = some u' ∧ u.Continues u') ∨
      ∃ committed, events = [.ended k committed] ∧
        s' = s.put k none (u.conclusion s.region committed) := by
  -- One transaction is put back, as what it has become.
  have hput : ∀ {h t t' r}, s.open? h = some t → t.Continues t' →
      ∃ u', (s.put h (some t') r).open? k = some u' ∧ u.Continues u' := by
    intro h t t' r ho hgoes
    by_cases hk : k = h
    · subst hk
      cases ho.symm.trans hu
      exact ⟨t', open?_put_self ho, hgoes⟩
    · exact ⟨u, (open?_put_ne hk).trans hu, .refl u⟩
  cases e with
  | began identified => exact .inl ⟨u, (begins_enter identified).after hu, .refl u⟩
  | @accessed h t t' a r' i isOpen readWrite found step =>
    obtain ⟨_, _, _, _, _, _, rfl, _⟩ := step.inv
    exact .inl (hput isOpen (.log t _ _))
  | @doomed h t isOpen => exact .inl (hput isOpen (.doom t))
  | @allocated h t r' size i isOpen readWrite whole granted =>
    exact .inl (hput isOpen (.allocate t i))
  | missed fails => exact .inl ⟨u, hu, .refl u⟩
  | @freed h t i n isOpen readWrite live removable => exact .inl (hput isOpen (.free t i))
  | @ended h t committed isOpen valid gives =>
    by_cases hk : k = h
    · subst hk
      cases isOpen.symm.trans hu
      exact .inr ⟨committed, rfl, rfl⟩
    · exact .inl ⟨u, (open?_put_ne hk).trans hu, .refl u⟩
  | collected => exact .inl ⟨u, hu, .refl u⟩

theorem size_effects (e : Effects orderly s events s') :
    s.transactions.size ≤ s'.transactions.size := by
  induction e with
  | nil => exact Nat.le_refl _
  | snoc _ last ih => exact Nat.le_trans ih (size_effect last)

/-- Whoever was open before and is open after an effect was open in between. -/
theorem open_between {middle : Session} {more : History} (before : Effects orderly s events middle)
    (last : Effect orderly middle more s') (hu : s.open? k = some u) (hu' : s'.open? k = some u') :
    ∃ v, middle.open? k = some v ∧ v.Continues u' := by
  -- The handle is not new.
  have hlt := Nat.lt_of_lt_of_le (lt_size_of_open hu) (size_effects before)
  exact (continues_effect last hu').resolve_right fun hnew => Nat.ne_of_lt hlt hnew.1

/-- Whoever is open afterwards, with a handle that is not new, was open before and goes on. -/
theorem open_before (e : Effects orderly s events s') (hlt : k < s.transactions.size)
    (hu' : s'.open? k = some u') : ∃ u, s.open? k = some u ∧ u.Continues u' := by
  induction e generalizing u' with
  | nil => exact ⟨u', hu', .refl u'⟩
  | snoc before last ih =>
    have hlt' := Nat.lt_of_lt_of_le hlt (size_effects before)
    obtain ⟨v, hv, hgoes⟩ :=
      (continues_effect last hu').resolve_right fun hnew => Nat.ne_of_lt hlt' hnew.1
    obtain ⟨u, hu, hbefore⟩ := ih hv
    exact ⟨u, hu, hbefore.trans hgoes⟩

/-- Whoever is open before and after goes on. -/
theorem continues_effects (e : Effects orderly s events s') (hu : s.open? k = some u)
    (hu' : s'.open? k = some u') : u.Continues u' := by
  induction e generalizing u' with
  | nil =>
    cases hu.symm.trans hu'
    exact .refl u
  | snoc before last ih =>
    obtain ⟨v, hv, hgoes⟩ := open_between before last hu hu'
    exact (ih hv).trans hgoes

/-- An effect changes the committed value of no word that an open transaction
    has claimed, unless it ends that transaction. -/
theorem value_effect (hs : s.Steady) (e : Effect orderly s events s') (hu : s.open? k = some u)
    (hu' : s'.open? k = some u') {ref : WordRef} (href : ref ∈ u.touched) {c' : Cell}
    (hc' : s'.region.cell? ref = some c') :
    ∃ c, s.region.cell? ref = some c ∧ c'.value = c.value := by
  obtain ⟨hlt, hclaim⟩ := hs.claims k u hu ref href
  -- As long as the word is there, the transaction is its accessor.
  have hfound : (s.region.cell? ref).isSome → ∃ c, s.region.cell? ref = some c ∧
      c.accessor = some u.id := by
    intro hsome
    obtain ⟨c, hc⟩ := Option.isSome_iff_exists.1 hsome
    obtain ⟨seg, hseg, -⟩ := Region.cell?_eq_some_iff.1 hc
    exact hclaim (by rw [hseg]; rfl)
  cases e with
  | began identified =>
    rw [Region.cell?_congr (begins_enter identified).segments_eq] at hc'
    exact ⟨c', hc', rfl⟩
  | @accessed h t t' a r' i isOpen readWrite found step =>
    -- Accesses change what is pending, never what is committed.
    obtain ⟨c, hc, hvalue, -⟩ := step.cell_before hc'
    exact ⟨c, hc, hvalue⟩
  | doomed isOpen => exact ⟨c', hc', rfl⟩
  | allocated isOpen readWrite whole granted =>
    rw [region_put] at hc'
    rcases (Region.grows_of_allocate? granted).cell?_eq hs.sized whole ref with hold | ⟨hnew, -, -⟩
    · exact ⟨c', hold.symm.trans hc', rfl⟩
    · exact absurd hnew (Nat.ne_of_lt hlt)
  | missed fails =>
    obtain ⟨table, -, rfl⟩ := fails.inv
    exact ⟨c', hc', rfl⟩
  | freed isOpen readWrite live removable => exact ⟨c', hc', rfl⟩
  | @ended h t committed isOpen valid gives =>
    -- Who is still open is not the one that ended, so the word is not settled.
    obtain ⟨-, hk⟩ := open?_of_put_none isOpen hu'
    have hcells := hs.cells_settles isOpen (t.settles_conclusion s.region committed) ref
    rw [region_put, hcells] at hc'
    obtain ⟨c, hc, rfl⟩ := Option.map_eq_some_iff.1 hc'
    obtain ⟨c₀, hc₀, hid⟩ := hfound (by rw [hc]; rfl)
    cases hc.symm.trans hc₀
    exact ⟨c, hc, congrArg Cell.value (hs.settled_of_other isOpen hu hk hc hid committed)⟩
  | collected => exact ⟨c', s.region.drops_collect.cell?_of_some hc', rfl⟩

end Session

end TransactionalMemory
