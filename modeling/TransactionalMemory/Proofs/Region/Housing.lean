import TransactionalMemory.Proofs.Region.Slots

/-! # The housing of segments

    A transaction may give up a segment that another one has freed. Such a
    segment is retired twice, and the slots then no longer agree with what waits
    in the collector. They still do their work: a slot number belongs to one
    segment at a time, from its allocation to its release, and it is not handed
    out in between. `SlotTable.Houses` states this. It is kept by every change
    that a region makes to its slots, but for one: the release of a segment that
    was released before. -/

namespace TransactionalMemory

namespace Slot

/-! Marking a slot leaves the segment in it. -/

@[simp] theorem segment?_markedFreeing (x : Slot) : x.markedFreeing.segment? = x.segment? := by
  cases x <;> rfl

@[simp] theorem segment?_relinked (x : Slot) : x.relinked.segment? = x.segment? := by
  cases x <;> rfl

@[simp] theorem segment?_markedRetired (x : Slot) : x.markedRetired.segment? = x.segment? := by
  cases x <;> rfl

end Slot

namespace SlotTable

/-- A free leaves the segments in their slots. -/
theorem segment?_mark (t : SlotTable) (i j : Nat) :
    ((t.mark i).lookup j).segment? = (t.lookup j).segment? := by
  unfold mark
  by_cases hij : i = j
  · rw [hij, t.lookup_set_self, Slot.segment?_markedFreeing]
  · rw [t.lookup_set_ne _ hij]

/-- Every slot number belongs to at most one segment that was not released;
    `held` gives the slot of each of these, and `size` the number of segments
    that were ever allocated. -/
structure Houses (t : SlotTable) (held : Nat → Option Nat) (size : Nat)
    (waiting : List Retirement) : Prop where
  single : ∀ n m i, held n = some i → held m = some i → n = m
  /-- A slot number that belongs to a segment is not handed out. -/
  reserved : ∀ n i, held n = some i → i < t.next ∧ i ∉ t.recycled
  recycledOnce : t.recycled.Nodup
  recycledOld : ∀ i ∈ t.recycled, i < t.next
  allocated : ∀ x ∈ waiting, x.segment < size
  /-- A segment that a slot holds can only wait to be unlinked. -/
  leaving : ∀ x ∈ waiting, ∀ i, (t.lookup i).segment? = some x.segment → x.linked = true
  waitingSlot : ∀ x ∈ waiting, ∀ i, held x.segment = some i → i = x.slot
  linkedHeld : ∀ x ∈ waiting, x.linked = true → held x.segment = some x.slot
  linkedUnused : ∀ x ∈ waiting, x.linked = true → (t.lookup x.slot).isOccupied = false
  /-- A segment that waits more than once waits to be unlinked before it waits to
      be released. -/
  linkedFirst : waiting.Pairwise fun x y => x.segment = y.segment → y.linked = false
  held : ∀ i n, (t.lookup i).segment? = some n → held n = some i

namespace Houses

variable {t t' : SlotTable} {held held' : Nat → Option Nat} {size : Nat}
  {waiting : List Retirement} {e : Retirement}

/-- Slots may lose their segments, and go out of use. -/
theorem mono (h : t.Houses held size waiting) (hnext : t'.next = t.next)
    (hrecycled : t'.recycled = t.recycled)
    (hslots : ∀ i n, (t'.lookup i).segment? = some n → (t.lookup i).segment? = some n)
    (hunused : ∀ i, (t.lookup i).isOccupied = false → (t'.lookup i).isOccupied = false) :
    t'.Houses held size waiting where
  single := h.single
  reserved := by rw [hnext, hrecycled]; exact h.reserved
  recycledOnce := by rw [hrecycled]; exact h.recycledOnce
  recycledOld := by rw [hrecycled, hnext]; exact h.recycledOld
  held := fun i n hn => h.held i n (hslots i n hn)
  allocated := h.allocated
  leaving := fun x hx i hi => h.leaving x hx i (hslots i _ hi)
  waitingSlot := h.waitingSlot
  linkedHeld := h.linkedHeld
  linkedUnused := fun x hx hl => hunused _ (h.linkedUnused x hx hl)
  linkedFirst := h.linkedFirst

/-- The same for one slot. -/
theorem set (h : t.Houses held size waiting) (i : Nat) {x : Slot}
    (hx : ∀ n, x.segment? = some n → (t.lookup i).segment? = some n)
    (hunused : (t.lookup i).isOccupied = false → x.isOccupied = false) :
    (t.set i x).Houses held size waiting := by
  refine h.mono (t.next_set i x) (t.recycled_set i x) (fun j n hn => ?_) fun j hj => ?_
  · by_cases hji : i = j
    · subst hji
      rw [t.lookup_set_self] at hn
      exact hx n hn
    · rwa [t.lookup_set_ne x hji] at hn
  · by_cases hji : i = j
    · subst hji
      rw [t.lookup_set_self]
      exact hunused hj
    · rwa [t.lookup_set_ne x hji]

/-- What waits may be taken out of the collector. -/
theorem tail (h : t.Houses held size (e :: waiting)) : t.Houses held size waiting where
  single := h.single
  reserved := h.reserved
  recycledOnce := h.recycledOnce
  recycledOld := h.recycledOld
  held := h.held
  allocated := fun x hx => h.allocated x (List.mem_cons_of_mem _ hx)
  leaving := fun x hx => h.leaving x (List.mem_cons_of_mem _ hx)
  waitingSlot := fun x hx => h.waitingSlot x (List.mem_cons_of_mem _ hx)
  linkedHeld := fun x hx => h.linkedHeld x (List.mem_cons_of_mem _ hx)
  linkedUnused := fun x hx => h.linkedUnused x (List.mem_cons_of_mem _ hx)
  linkedFirst := (List.pairwise_cons.1 h.linkedFirst).2

/-- One more retirement waits, of a segment that is not used any more. -/
theorem enqueue (h : t.Houses held size waiting) (hheld : held e.segment = some e.slot)
    (hallocated : e.segment < size) (hunused : (t.lookup e.slot).isOccupied = false)
    (hlinked : (t.lookup e.slot).segment? = some e.segment → e.linked = true)
    (hfirst : e.linked = true → ∀ x ∈ waiting, x.segment ≠ e.segment) :
    t.Houses held size (waiting ++ [e]) := by
  have hcases : ∀ x ∈ waiting ++ [e], x ∈ waiting ∨ x = e := fun x hx =>
    (List.mem_append.1 hx).imp_right List.mem_singleton.1
  constructor
  case single => exact h.single
  case reserved => exact h.reserved
  case recycledOnce => exact h.recycledOnce
  case recycledOld => exact h.recycledOld
  case allocated =>
    intro x hx
    rcases hcases x hx with hold | rfl
    · exact h.allocated x hold
    · exact hallocated
  case leaving =>
    intro x hx i hi
    rcases hcases x hx with hold | rfl
    · exact h.leaving x hold i hi
    · -- The only slot that may hold the segment is its own.
      have heq := (h.held i _ hi).symm.trans hheld
      exact hlinked (Option.some.inj heq ▸ hi)
  case waitingSlot =>
    intro x hx i hi
    rcases hcases x hx with hold | rfl
    · exact h.waitingSlot x hold i hi
    · exact Option.some.inj (hi.symm.trans hheld)
  case linkedHeld =>
    intro x hx hl
    rcases hcases x hx with hold | rfl
    · exact h.linkedHeld x hold hl
    · exact hheld
  case linkedUnused =>
    intro x hx hl
    rcases hcases x hx with hold | rfl
    · exact h.linkedUnused x hold hl
    · exact hunused
  case linkedFirst =>
    rw [List.pairwise_append]
    refine ⟨h.linkedFirst, List.pairwise_singleton .., fun x hx y hy heq => ?_⟩
    rw [List.mem_singleton.1 hy] at heq ⊢
    exact Bool.eq_false_iff.2 fun hl => hfirst hl x hx heq
  case held => exact h.held

/-- A slot in use is retired, or emptied whatever it holds, and its segment goes
    to the collector. -/
theorem retire {i n : Nat} {linked : Bool} (h : t.Houses held size waiting)
    (hn : (t.lookup i).segment? = some n) (hallocated : n < size)
    (hused : linked = true → (t.lookup i).isOccupied = true) (bytes : Nat) :
    (t.set i (.afterRetire n linked)).Houses held size (waiting ++ [⟨i, n, bytes, linked⟩]) := by
  have hheld := h.held i n hn
  have hset : (t.set i (.afterRetire n linked)).Houses held size waiting := by
    refine h.set i (fun m hm => ?_) fun _ => ?_
    · cases linked <;> cases hm
      exact hn
    · cases linked <;> rfl
  refine hset.enqueue hheld hallocated ?_ ?_ ?_
  · rw [t.lookup_set_self]
    cases linked <;> rfl
  · rw [t.lookup_set_self]
    cases linked
    · nofun
    · exact fun _ => rfl
  · -- If it waited already, the slot would not be in use.
    rintro hl x hx rfl
    have hxl := h.leaving x hx i hn
    have hunused := h.linkedUnused x hx hxl
    rw [← h.waitingSlot x hx i hheld, hused hl] at hunused
    cases hunused

/-- The first retirement is unlinked, and goes to the end. -/
theorem unlink (h : t.Houses held size (e :: waiting)) (hlinked : e.linked = true) :
    (t.set e.slot .vacant).Houses held size (waiting ++ [{ e with linked := false }]) := by
  have hset : (t.set e.slot .vacant).Houses held size waiting :=
    h.tail.set e.slot (fun _ hn => nomatch hn) fun _ => rfl
  refine hset.enqueue (h.linkedHeld e List.mem_cons_self hlinked)
    (h.allocated e List.mem_cons_self) ?_ ?_ (fun hl => nomatch hl)
  · rw [t.lookup_set_self]; rfl
  · rw [t.lookup_set_self]; nofun

/-- A slot number that belongs to no segment is taken back. -/
theorem recycle {i : Nat} (h : t.Houses held size waiting) (hold : i < t.next)
    (hrecycled : i ∉ t.recycled) (hfree : ∀ n, held n ≠ some i) :
    (t.recycle i).Houses held size waiting := by
  refine { h with
    reserved := fun n j hn => ⟨(h.reserved n j hn).1, ?_⟩
    recycledOnce := List.nodup_cons.2 ⟨hrecycled, h.recycledOnce⟩, recycledOld := ?_ }
  · intro hj
    rcases List.mem_cons.1 hj with rfl | hj
    · exact hfree n hn
    · exact (h.reserved n j hn).2 hj
  · intro j hj
    rcases List.mem_cons.1 hj with rfl | hj
    · exact hold
    · exact h.recycledOld j hj

/-- The first retirement is released, and its slot number is taken back. -/
theorem release (h : t.Houses held size (e :: waiting)) (hlinked : e.linked = false)
    (hpresent : held e.segment ≠ none) (hgone : held' e.segment = none)
    (hheld : ∀ n, n ≠ e.segment → held' n = held n) :
    (t.recycle e.slot).Houses held' size waiting := by
  have hslot : held e.segment = some e.slot := by
    obtain ⟨i, hi⟩ := Option.ne_none_iff_exists'.1 hpresent
    rwa [← h.waitingSlot e List.mem_cons_self i hi]
  have hbefore : ∀ n i, held' n = some i → held n = some i ∧ n ≠ e.segment := by
    intro n i hn
    have hne : n ≠ e.segment := by
      rintro rfl
      rw [hgone] at hn
      cases hn
    exact ⟨(hheld n hne).symm.trans hn, hne⟩
  -- No slot holds the segment, and whatever still waits to be unlinked is another one.
  have hslots : ∀ i n, (t.lookup i).segment? = some n → n ≠ e.segment := by
    rintro i n hn rfl
    rw [h.leaving e List.mem_cons_self i hn] at hlinked
    cases hlinked
  obtain ⟨hfirst, hrest⟩ := List.pairwise_cons.1 h.linkedFirst
  have hother : ∀ x ∈ waiting, x.linked = true → x.segment ≠ e.segment := fun x hx hl heq => by
    rw [hfirst x hx heq.symm] at hl
    cases hl
  have hleft : t.Houses held' size waiting := by
    refine { h.tail with
      single := fun n m i hn hm => h.single n m i (hbefore n i hn).1 (hbefore m i hm).1
      reserved := fun n i hn => h.reserved n i (hbefore n i hn).1
      waitingSlot := fun x hx i hi => h.tail.waitingSlot x hx i (hbefore _ i hi).1
      linkedHeld := ?_, held := ?_ }
    · exact fun x hx hl => (hheld _ (hother x hx hl)).trans (h.tail.linkedHeld x hx hl)
    · exact fun i n hn => (hheld n (hslots i n hn)).trans (h.held i n hn)
  obtain ⟨hold, hrecycled⟩ := h.reserved _ _ hslot
  refine hleft.recycle hold hrecycled fun n hn => ?_
  obtain ⟨hn, hne⟩ := hbefore n e.slot hn
  exact hne (h.single n e.segment _ hn hslot)

/-- A slot number that is handed out belongs to no segment. -/
theorem reserve {i : Nat} (h : t.Houses held size waiting) (hi : t.reserve? = some (i, t')) :
    (∀ n, held n ≠ some i) ∧ i < t'.next ∧ i ∉ t'.recycled ∧ t'.Houses held size waiting := by
  unfold reserve? at hi
  split at hi
  next first rest hrecycled =>
    simp only [Option.some.injEq, Prod.mk.injEq] at hi
    obtain ⟨rfl, rfl⟩ := hi
    -- A number that was taken back is handed out again.
    have hfirst : first ∈ t.recycled := by rw [hrecycled]; exact List.mem_cons_self
    have hrest : ∀ {j}, j ∈ rest → j ∈ t.recycled := fun hj => by
      rw [hrecycled]; exact List.mem_cons_of_mem _ hj
    have honce := h.recycledOnce
    rw [hrecycled] at honce
    obtain ⟨hnew, honce⟩ := List.nodup_cons.1 honce
    refine ⟨fun n hn => (h.reserved n first hn).2 hfirst, h.recycledOld first hfirst, hnew, ?_⟩
    exact { h with
      reserved := fun n j hn => (h.reserved n j hn).imp_right fun hout hj => hout (hrest hj)
      recycledOnce := honce
      recycledOld := fun j hj => h.recycledOld j (hrest hj) }
  next hrecycled =>
    split at hi
    next =>
      simp only [Option.some.injEq, Prod.mk.injEq] at hi
      obtain ⟨rfl, rfl⟩ := hi
      -- A number that was never handed out.
      refine ⟨fun n hn => Nat.lt_irrefl _ (h.reserved n t.next hn).1, Nat.lt_succ_self _,
        fun hmem => Nat.lt_irrefl _ (h.recycledOld _ hmem), ?_⟩
      exact { h with
        reserved := fun n j hn => (h.reserved n j hn).imp_left Nat.lt_succ_of_lt
        recycledOld := fun j hj => Nat.lt_succ_of_lt (h.recycledOld j hj) }
    next => cases hi

/-- A slot number that is handed out can be given back. -/
theorem giveBack {i : Nat} (h : t.Houses held size waiting) (hi : t.reserve? = some (i, t')) :
    (t'.recycle i).Houses held size waiting := by
  obtain ⟨hfree, hold, hrecycled, h'⟩ := h.reserve hi
  exact h'.recycle hold hrecycled hfree

/-- A new segment is put into a slot whose number belongs to no segment. -/
theorem publish {i : Nat} (h : t.Houses held size waiting) (hlt : i < t.next)
    (hrecycled : i ∉ t.recycled) (hfree : ∀ n, held n ≠ some i) (hnew : held size = none)
    (hself : held' size = some i) (hheld : ∀ n, n ≠ size → held' n = held n) :
    (t.publish i size).Houses held' (size + 1) waiting := by
  have hlookup : (t.publish i size).lookup i = .live size := t.lookup_set_self i _
  have hothers : ∀ j, j ≠ i → (t.publish i size).lookup j = t.lookup j := fun j hj =>
    t.lookup_set_ne _ (Ne.symm hj)
  have hnext : (t.publish i size).next = t.next := t.next_set i _
  have hkept : (t.publish i size).recycled = t.recycled := t.recycled_set i _
  have hcases : ∀ n j, held' n = some j → (n = size ∧ j = i) ∨ (held n = some j ∧ j ≠ i) := by
    intro n j hn
    by_cases heq : n = size
    · subst heq
      exact .inl ⟨rfl, Option.some.inj (hn.symm.trans hself)⟩
    · rw [hheld n heq] at hn
      exact .inr ⟨hn, fun hj => hfree n (hj ▸ hn)⟩
  -- What waits is older than the new segment.
  have hold : ∀ x ∈ waiting, held' x.segment = held x.segment := fun x hx =>
    hheld _ (Nat.ne_of_lt (h.allocated x hx))
  constructor
  case single =>
    intro n m j hn hm
    rcases hcases n j hn with ⟨rfl, rfl⟩ | ⟨hn, hj⟩
    · rcases hcases m j hm with ⟨rfl, -⟩ | ⟨-, hj⟩
      · rfl
      · exact absurd rfl hj
    · rcases hcases m j hm with ⟨-, rfl⟩ | ⟨hm, -⟩
      · exact absurd rfl hj
      · exact h.single n m j hn hm
  case reserved =>
    intro n j hn
    rw [hnext, hkept]
    rcases hcases n j hn with ⟨-, rfl⟩ | ⟨hn, -⟩
    · exact ⟨hlt, hrecycled⟩
    · exact h.reserved n j hn
  case recycledOnce => rw [hkept]; exact h.recycledOnce
  case recycledOld => rw [hkept, hnext]; exact h.recycledOld
  case allocated => exact fun x hx => Nat.lt_succ_of_lt (h.allocated x hx)
  case leaving =>
    intro x hx j hj
    by_cases hji : j = i
    · subst hji
      rw [hlookup] at hj
      cases hj
      exact absurd (h.allocated x hx) (Nat.lt_irrefl _)
    · rw [hothers j hji] at hj
      exact h.leaving x hx j hj
  case waitingSlot => exact fun x hx j hj => h.waitingSlot x hx j ((hold x hx).symm.trans hj)
  case linkedHeld => exact fun x hx hl => (hold x hx).trans (h.linkedHeld x hx hl)
  case linkedUnused =>
    intro x hx hl
    rw [hothers x.slot fun heq => hfree x.segment (heq ▸ h.linkedHeld x hx hl)]
    exact h.linkedUnused x hx hl
  case linkedFirst => exact h.linkedFirst
  case held =>
    intro j n hn
    by_cases hj : j = i
    · subst hj
      rw [hlookup] at hn
      cases hn
      exact hself
    · rw [hothers j hj] at hn
      have hn' := h.held j n hn
      refine (hheld n fun heq => ?_).trans hn'
      rw [heq, hnew] at hn'
      cases hn'

end Houses

end SlotTable

end TransactionalMemory
