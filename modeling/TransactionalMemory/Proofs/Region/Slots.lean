import TransactionalMemory.Proofs.Reclaim.Expiry
import TransactionalMemory.Region.Collect

/-! # Slots, segments and retirements

    Every segment that is not released is in one of three places: in a slot
    that is live or freeing, in a slot that is retired, or in no slot any more.
    The last two kinds wait in the collector. `SlotTable.Agrees` states that the
    slots, the numbers to be handed out again and the waiting retirements do
    not contradict each other:

    - every slot number that was handed out can be part of an address;
    - a slot number to be handed out again names a vacant slot that no waiting
      retirement names;
    - no two waiting retirements name one slot;
    - a segment has one slot for its whole life, and the slot and the waiting
      retirement that name a segment agree on it.

    It is kept by every change that the region makes to its slots. -/

namespace TransactionalMemory

namespace Slot

def isRetired : Slot → Bool
  | retired _ => true
  | vacant | live _ | freeing _ => false

theorem ne_vacant_of_isOccupied {x : Slot} (h : x.isOccupied = true) : x ≠ .vacant := by
  rintro rfl
  cases h

/-- What is left of a slot whose segment has gone to the collector. -/
def afterRetire (segment : Nat) (linked : Bool) : Slot :=
  if linked then retired segment else vacant

end Slot

namespace SlotTable

/-- The slots, the numbers to be handed out again and the waiting retirements do
    not contradict each other; `held` gives the slot of each segment that was
    not released. -/
structure Agrees (t : SlotTable) (held : Nat → Option Nat) (waiting : List Retirement) : Prop where
  bounded : t.next ≤ maxSegments
  fresh : ∀ i, t.next ≤ i → t.lookup i = .vacant
  recycledOnce : t.recycled.Nodup
  recycledOld : ∀ i ∈ t.recycled, i < t.next
  recycledVacant : ∀ i ∈ t.recycled, t.lookup i = .vacant
  waitingOnce : (waiting.map Retirement.slot).Nodup
  waitingOld : ∀ e ∈ waiting, e.slot < t.next
  waitingUnrecycled : ∀ e ∈ waiting, e.slot ∉ t.recycled
  waitingSlot : ∀ e ∈ waiting, t.lookup e.slot = .afterRetire e.segment e.linked
  waitingHeld : ∀ e ∈ waiting, held e.segment = some e.slot
  held : ∀ i n, (t.lookup i).segment? = some n → held n = some i
  /-- A retired slot waits to be emptied. -/
  retired : ∀ i, (t.lookup i).isRetired → i ∈ waiting.map Retirement.slot

/-- Handing out a slot number changes nothing that slots hold. -/
theorem lookup_of_reserve? {t t' : SlotTable} {i : Nat} (h : t.reserve? = some (i, t')) (j : Nat) :
    t'.lookup j = t.lookup j := by
  unfold reserve? at h
  split at h
  · cases h; rfl
  · split at h
    · cases h; rfl
    · cases h

namespace Agrees

variable {t t' : SlotTable} {held : Nat → Option Nat} {waiting : List Retirement}

/-- Only what the slots hold and which numbers were given out matters. -/
theorem congr (h : t.Agrees held waiting) (hlookup : ∀ i, t'.lookup i = t.lookup i)
    (hnext : t'.next = t.next) (hrecycled : t'.recycled = t.recycled) :
    t'.Agrees held waiting where
  bounded := by simpa only [hnext] using h.bounded
  fresh := by simpa only [hlookup, hnext] using h.fresh
  recycledOnce := by simpa only [hrecycled] using h.recycledOnce
  recycledOld := by simpa only [hrecycled, hnext] using h.recycledOld
  recycledVacant := by simpa only [hrecycled, hlookup] using h.recycledVacant
  waitingOnce := h.waitingOnce
  waitingOld := by simpa only [hnext] using h.waitingOld
  waitingUnrecycled := by simpa only [hrecycled] using h.waitingUnrecycled
  waitingSlot := by simpa only [hlookup] using h.waitingSlot
  waitingHeld := h.waitingHeld
  held := by simpa only [hlookup] using h.held
  retired := by simpa only [hlookup] using h.retired

/-- Only which slot each segment has matters. -/
theorem congrHeld {held' : Nat → Option Nat} (h : t.Agrees held waiting)
    (hheld : ∀ n, held' n = held n) : t.Agrees held' waiting := by
  rwa [funext hheld]

/-- A slot that holds a segment was handed out, and is not to be handed out again. -/
theorem lt_next (h : t.Agrees held waiting) {i : Nat} (hi : t.lookup i ≠ .vacant) :
    i < t.next := by
  by_cases hlt : i < t.next
  · exact hlt
  · exact absurd (h.fresh i (by omega)) hi

/-- A slot that holds a segment can be named by an address. -/
theorem lt_maxSegments (h : t.Agrees held waiting) {i : Nat} (hi : t.lookup i ≠ .vacant) :
    i < maxSegments := Nat.lt_of_lt_of_le (h.lt_next hi) h.bounded

theorem not_mem_recycled (h : t.Agrees held waiting) {i : Nat} (hi : t.lookup i ≠ .vacant) :
    i ∉ t.recycled := fun hmem => hi (h.recycledVacant i hmem)

/-- A slot in use is not waited for. -/
theorem not_mem_waiting (h : t.Agrees held waiting) {i : Nat} (hi : (t.lookup i).isOccupied) :
    i ∉ waiting.map Retirement.slot := by
  intro hmem
  obtain ⟨e, he, rfl⟩ := List.mem_map.1 hmem
  rw [h.waitingSlot e he, Slot.afterRetire] at hi
  split at hi <;> cases hi

/-- One slot changes, and with it at most the retirement that names it: what is
    asked of the new state of the slot is enough, as all other slots are as they
    were. -/
theorem set {held' : Nat → Option Nat} {waiting' : List Retirement} {i : Nat} {x : Slot}
    (h : t.Agrees held waiting) (hold : i < t.next) (hrecycled : i ∉ t.recycled)
    (honce : (waiting'.map Retirement.slot).Nodup)
    (hothers : ∀ e, e.slot ≠ i → (e ∈ waiting' ↔ e ∈ waiting))
    (hheld : ∀ m j, j ≠ i → held m = some j → held' m = some j)
    (hself : ∀ e ∈ waiting', e.slot = i →
      x = .afterRetire e.segment e.linked ∧ held' e.segment = some i)
    (hx : ∀ n, x.segment? = some n → held' n = some i)
    (hretired : x.isRetired → i ∈ waiting'.map Retirement.slot) :
    (t.set i x).Agrees held' waiting' := by
  have hlookup : ∀ j, j ≠ i → (t.set i x).lookup j = t.lookup j := fun j hj =>
    t.lookup_set_ne x (Ne.symm hj)
  have hmem : ∀ e ∈ waiting', e.slot ≠ i → e ∈ waiting := fun e he hne => (hothers e hne).1 he
  constructor
  · rw [next_set]; exact h.bounded
  · -- Slots that were not handed out stay vacant.
    intro j hj
    rw [next_set] at hj
    rw [hlookup j (by omega)]
    exact h.fresh j hj
  · rw [recycled_set]; exact h.recycledOnce
  · simp only [recycled_set, next_set]; exact h.recycledOld
  · -- The slot is none of those to be handed out again, so these stay vacant.
    intro j hj
    rw [recycled_set] at hj
    rw [hlookup j fun heq => hrecycled (heq ▸ hj)]
    exact h.recycledVacant j hj
  · exact honce
  · -- Retirements that wait name slots that were handed out, and none to be handed out again.
    intro e he
    rw [next_set]
    by_cases hei : e.slot = i
    · rw [hei]; exact hold
    · exact h.waitingOld e (hmem e he hei)
  · intro e he
    rw [recycled_set]
    by_cases hei : e.slot = i
    · rw [hei]; exact hrecycled
    · exact h.waitingUnrecycled e (hmem e he hei)
  · -- A waiting retirement agrees with the slot that it names, and on the segment there.
    intro e he
    by_cases hei : e.slot = i
    · rw [hei, lookup_set_self]; exact (hself e he hei).1
    · rw [hlookup e.slot hei]; exact h.waitingSlot e (hmem e he hei)
  · intro e he
    by_cases hei : e.slot = i
    · rw [hei]; exact (hself e he hei).2
    · exact hheld _ _ hei (h.waitingHeld e (hmem e he hei))
  · -- A segment has the slot that holds it.
    intro j n hn
    by_cases hji : j = i
    · subst hji
      rw [lookup_set_self] at hn
      exact hx n hn
    · rw [hlookup j hji] at hn
      exact hheld n j hji (h.held j n hn)
  · -- A retired slot waits to be emptied.
    intro j hj
    by_cases hji : j = i
    · subst hji
      rw [lookup_set_self] at hj
      exact hretired hj
    · rw [hlookup j hji] at hj
      obtain ⟨e, he, rfl⟩ := List.mem_map.1 (h.retired j hj)
      exact List.mem_map_of_mem ((hothers e hji).2 he)

/-- A slot in use is given another state of use. -/
theorem restate (h : t.Agrees held waiting) {i n : Nat} {x : Slot}
    (hi : (t.lookup i).isOccupied) (hn : (t.lookup i).segment? = some n)
    (hx : x.isOccupied) (hxn : x.segment? = some n) : (t.set i x).Agrees held waiting := by
  have hvacant := Slot.ne_vacant_of_isOccupied hi
  refine h.set (h.lt_next hvacant) (h.not_mem_recycled hvacant) h.waitingOnce (fun _ _ => .rfl)
    (fun _ _ _ hm => hm) ?_ ?_ ?_
  · -- Nobody waits for a slot in use.
    intro e he heq
    exact absurd (heq ▸ List.mem_map_of_mem he) (h.not_mem_waiting hi)
  · intro m hm
    exact h.held i m (hn.trans (hxn.symm.trans hm))
  · intro hret
    cases x <;> cases hx <;> cases hret

theorem nodup_slots_append {e : Retirement} (honce : (waiting.map Retirement.slot).Nodup)
    (hnew : e.slot ∉ waiting.map Retirement.slot) :
    ((waiting ++ [e]).map Retirement.slot).Nodup := by
  rw [List.map_append, List.map_singleton, List.nodup_append]
  refine ⟨honce, List.pairwise_singleton .., fun a ha b hb heq => ?_⟩
  rw [List.mem_singleton.1 hb] at heq
  exact hnew (heq ▸ ha)

/-- A slot in use is retired or emptied, and its segment goes to the collector. -/
theorem retire (h : t.Agrees held waiting) {i n : Nat} (hi : (t.lookup i).isOccupied)
    (hn : (t.lookup i).segment? = some n) (bytes : Nat) (linked : Bool) :
    (t.set i (.afterRetire n linked)).Agrees held (waiting ++ [⟨i, n, bytes, linked⟩]) := by
  have hvacant := Slot.ne_vacant_of_isOccupied hi
  have hnew := h.not_mem_waiting hi
  refine h.set (h.lt_next hvacant) (h.not_mem_recycled hvacant)
    (nodup_slots_append h.waitingOnce hnew) ?_ (fun _ _ _ hm => hm) ?_ ?_ ?_
  · intro e hne
    rw [List.mem_append, List.mem_singleton]
    exact ⟨fun he => he.resolve_right fun heq => hne (by rw [heq]), .inl⟩
  · -- The one retirement that names the slot is the new one.
    intro e he heq
    rcases List.mem_append.1 he with hold | hlast
    · exact absurd (heq ▸ List.mem_map_of_mem hold) hnew
    · rw [List.mem_singleton.1 hlast]; exact ⟨rfl, h.held i n hn⟩
  · intro m hm
    unfold Slot.afterRetire at hm
    split at hm
    · cases hm; exact h.held i n hn
    · cases hm
  · intro _
    rw [List.map_append]
    exact List.mem_append_right _ (List.mem_singleton.2 rfl)

/-- A retired slot whose first wait is over is emptied, and waits a second time. -/
theorem unlink {e : Retirement} (h : t.Agrees held (e :: waiting)) :
    (t.set e.slot .vacant).Agrees held (waiting ++ [{ e with linked := false }]) := by
  obtain ⟨hfirst, honce⟩ := List.nodup_cons.1 h.waitingOnce
  refine h.set (h.waitingOld e List.mem_cons_self) (h.waitingUnrecycled e List.mem_cons_self)
    (nodup_slots_append honce hfirst) ?_ (fun _ _ _ hm => hm) ?_ (fun _ hn => nomatch hn)
    (fun hret => nomatch hret)
  · intro x hne
    rw [List.mem_append, List.mem_singleton, List.mem_cons]
    constructor
    · exact fun hx => .inr (hx.resolve_right fun heq => hne (by rw [heq]))
    · exact fun hx => .inl (hx.resolve_left fun heq => hne (by rw [heq]))
  · -- It is named once, by the retirement that goes to the end.
    intro x hx heq
    rcases List.mem_append.1 hx with hold | hlast
    · exact absurd (heq ▸ List.mem_map_of_mem hold) hfirst
    · rw [List.mem_singleton.1 hlast]
      exact ⟨rfl, h.waitingHeld e List.mem_cons_self⟩

/-- The number of a vacant slot that nobody waits for is taken back. -/
theorem recycle (h : t.Agrees held waiting) {i : Nat} (hold : i < t.next)
    (hrecycled : i ∉ t.recycled) (hvacant : t.lookup i = .vacant)
    (hwaiting : i ∉ waiting.map Retirement.slot) : (t.recycle i).Agrees held waiting := by
  refine { h with
    recycledOnce := List.nodup_cons.2 ⟨hrecycled, h.recycledOnce⟩
    recycledOld := ?_, recycledVacant := ?_, waitingUnrecycled := ?_ }
  · intro j hj
    rcases List.mem_cons.1 hj with rfl | hj
    · exact hold
    · exact h.recycledOld j hj
  · intro j hj
    rcases List.mem_cons.1 hj with rfl | hj
    · exact hvacant
    · exact h.recycledVacant j hj
  · intro e he hmem
    rcases List.mem_cons.1 hmem with heq | hmem
    · exact hwaiting (heq ▸ List.mem_map_of_mem he)
    · exact h.waitingUnrecycled e he hmem

/-- A segment whose slot is empty is released, and its slot number is taken back. -/
theorem release {e : Retirement} {held' : Nat → Option Nat} (h : t.Agrees held (e :: waiting))
    (hlinked : e.linked = false)
    (hheld : ∀ n, n ≠ e.segment → held' n = held n) :
    (t.recycle e.slot).Agrees held' waiting := by
  obtain ⟨hfirst, honce⟩ := List.nodup_cons.1 h.waitingOnce
  have hempty : t.lookup e.slot = .vacant := by
    rw [h.waitingSlot e List.mem_cons_self, Slot.afterRetire, hlinked]; rfl
  have hslot := h.waitingHeld e List.mem_cons_self
  -- Nothing that is still held has the slot of the released segment.
  have hother : ∀ n i, held n = some i → i ≠ e.slot → held' n = some i := by
    intro n i hn hi
    refine (hheld n fun heq => hi ?_).trans hn
    rw [heq, hslot] at hn
    exact (Option.some.inj hn).symm
  have hrest : t.Agrees held' waiting := by
    refine { h with
      waitingOnce := honce
      waitingOld := fun x hx => h.waitingOld x (List.mem_cons_of_mem _ hx)
      waitingUnrecycled := fun x hx => h.waitingUnrecycled x (List.mem_cons_of_mem _ hx)
      waitingSlot := fun x hx => h.waitingSlot x (List.mem_cons_of_mem _ hx)
      waitingHeld := ?_, held := ?_, retired := ?_ }
    · intro x hx
      exact hother _ _ (h.waitingHeld x (List.mem_cons_of_mem _ hx))
        fun heq => hfirst (heq ▸ List.mem_map_of_mem hx)
    · -- A slot holds none but segments that are still there.
      intro j n hn
      refine hother _ _ (h.held j n hn) fun heq => ?_
      rw [heq, hempty] at hn
      cases hn
    · intro j hj
      rcases List.mem_cons.1 (h.retired j hj) with heq | hrest
      · rw [heq, hempty] at hj
        cases hj
      · exact hrest
  exact hrest.recycle (h.waitingOld e List.mem_cons_self)
    (h.waitingUnrecycled e List.mem_cons_self) hempty hfirst

/-- A slot number that is handed out names a vacant slot that nobody waits for. -/
theorem reserve (h : t.Agrees held waiting) {i : Nat} (hi : t.reserve? = some (i, t')) :
    t.lookup i = .vacant ∧ i ∉ waiting.map Retirement.slot ∧ i < t'.next ∧ i ∉ t'.recycled ∧
      t'.Agrees held waiting := by
  have hwaiting : ∀ j, (∀ e ∈ waiting, e.slot ≠ j) → j ∉ waiting.map Retirement.slot := by
    intro j hj hmem
    obtain ⟨e, he, heq⟩ := List.mem_map.1 hmem
    exact hj e he heq
  unfold reserve? at hi
  split at hi
  next first rest hrecycled =>
    simp only [Option.some.injEq, Prod.mk.injEq] at hi
    obtain ⟨rfl, rfl⟩ := hi
    -- A number that was taken back is handed out again.
    have hfirst : first ∈ t.recycled := by rw [hrecycled]; exact List.mem_cons_self
    have honce := h.recycledOnce
    rw [hrecycled] at honce
    obtain ⟨hnew, honce⟩ := List.nodup_cons.1 honce
    have hrest : ∀ {j}, j ∈ rest → j ∈ t.recycled := fun hj => by
      rw [hrecycled]; exact List.mem_cons_of_mem _ hj
    refine ⟨h.recycledVacant first hfirst,
      hwaiting first fun e he heq => h.waitingUnrecycled e he (heq ▸ hfirst),
      h.recycledOld first hfirst, hnew, ?_⟩
    exact { h with
      recycledOnce := honce
      recycledOld := fun j hj => h.recycledOld j (hrest hj)
      recycledVacant := fun j hj => h.recycledVacant j (hrest hj)
      waitingUnrecycled := fun e he hj => h.waitingUnrecycled e he (hrest hj) }
  next hrecycled =>
    split at hi
    next hlt =>
      simp only [Option.some.injEq, Prod.mk.injEq] at hi
      obtain ⟨rfl, rfl⟩ := hi
      -- A number that was never handed out.
      refine ⟨h.fresh _ (Nat.le_refl _),
        hwaiting _ fun e he heq => by have := h.waitingOld e he; omega,
        Nat.lt_succ_self _, fun hmem => by have := h.recycledOld _ hmem; omega, ?_⟩
      exact { h with
        bounded := hlt
        fresh := fun j hj => h.fresh j (Nat.le_of_succ_le hj)
        recycledOld := fun j hj => Nat.lt_succ_of_lt (h.recycledOld j hj)
        waitingOld := fun e he => Nat.lt_succ_of_lt (h.waitingOld e he) }
    next => cases hi

/-- A slot number that is handed out can be given back. -/
theorem giveBack (h : t.Agrees held waiting) {i : Nat} (hi : t.reserve? = some (i, t')) :
    (t'.recycle i).Agrees held waiting := by
  obtain ⟨hvacant, hwaiting, hold, hrecycled, h'⟩ := h.reserve hi
  refine h'.recycle hold hrecycled ?_ hwaiting
  rw [lookup_of_reserve? hi]
  exact hvacant

/-- A new segment is put into a vacant slot that was handed out. -/
theorem publish (h : t.Agrees held waiting) {i n : Nat} {held' : Nat → Option Nat}
    (hlt : i < t.next) (hrecycled : i ∉ t.recycled)
    (hwaiting : i ∉ waiting.map Retirement.slot) (hnew : held n = none)
    (hn : held' n = some i) (hheld : ∀ m, m ≠ n → held' m = held m) :
    (t.publish i n).Agrees held' waiting := by
  have hset : (t.set i (.live n)).Agrees held' waiting := by
    refine h.set hlt hrecycled h.waitingOnce (fun _ _ => .rfl) ?_ ?_ ?_ (fun hret => nomatch hret)
    · intro m j _ hm
      refine (hheld m fun heq => ?_).trans hm
      rw [heq, hnew] at hm
      cases hm
    · intro e he heq
      exact absurd (heq ▸ List.mem_map_of_mem he) hwaiting
    · intro m hm
      cases hm
      exact hn
  exact hset.congr (fun _ => rfl) rfl rfl

end Agrees

end SlotTable

end TransactionalMemory
