import TransactionalMemory.Reclaim.Collector

/-! # What the collector hands over

    Bisection finds the end of an initial part. On a queue in the order of its
    due epochs the expired entries are such a part, so the cut taken there
    separates exactly the expired entries from the others.

    A collector keeps its queue in that order: it stamps every value with its
    epoch, which never goes back. So every value it hands over was retired at
    least two epochs before, and every value retired later stays. -/

namespace TransactionalMemory

/-! ## Bisection -/

namespace Bisection

/-- A window that contains the boundary is halved until only the boundary is left. -/
theorem search_eq {holds : Nat → Bool} {boundary n : Nat}
    (hholds : ∀ i < n, holds i = true ↔ i < boundary) (fuel base size : Nat)
    (hpos : 0 < size) (hfuel : size ≤ fuel) (hwindow : base + size ≤ n)
    (hbase : base ≤ boundary) (htop : boundary ≤ base + size) :
    search holds fuel base size = boundary := by
  induction fuel generalizing base size with
  | zero => exact absurd hfuel (by omega)
  | succ fuel ih =>
    unfold search
    by_cases hsmall : size ≤ 1
    · -- One index is left, and `holds` tells on which side of it the boundary is.
      simp only [hsmall, if_true]
      have hdecide := hholds base (by omega)
      split
      next htrue =>
        have := hdecide.1 htrue
        omega
      next hfalse =>
        have : ¬ base < boundary := fun h => hfalse (hdecide.2 h)
        omega
    · simp only [hsmall, if_false]
      -- The half that is kept contains the boundary.
      have hdecide := hholds (base + size / 2) (by omega)
      split
      next htrue =>
        have := hdecide.1 htrue
        exact ih _ _ (by omega) (by omega) (by omega) (by omega) (by omega)
      next hfalse =>
        have : ¬ base + size / 2 < boundary := fun h => hfalse (hdecide.2 h)
        exact ih _ _ (by omega) (by omega) (by omega) (by omega) (by omega)

/-- If `holds` is true exactly below some index, bisection finds that index. -/
theorem boundary_eq {holds : Nat → Bool} {size b : Nat} (hb : b ≤ size)
    (hholds : ∀ i < size, holds i = true ↔ i < b) : boundary size holds = b := by
  unfold boundary
  split
  next h => omega
  next h =>
    exact search_eq hholds size 0 size (Nat.pos_of_ne_zero h) (Nat.le_refl _) (by omega)
      (Nat.zero_le _) (by omega)

end Bisection

/-! ## The expired part of a queue -/

/-- In a list in which whatever comes before an element with property `p` has it
    too, the elements with the property are an initial part. -/
theorem any_getElem?_iff_lt_length_takeWhile {α : Type} {p : α → Bool} {l : List α}
    (h : l.Pairwise fun x y => p y = true → p x = true) (i : Nat) :
    (l[i]?).any p = true ↔ i < (l.takeWhile p).length := by
  induction l generalizing i with
  | nil => simp
  | cons x rest ih =>
    obtain ⟨hx, hrest⟩ := List.pairwise_cons.1 h
    by_cases hpx : p x = true
    · rw [List.takeWhile_cons_of_pos hpx]
      cases i with
      | zero => simp [hpx]
      | succ i => simpa using ih hrest i
    · rw [List.takeWhile_cons_of_neg hpx]
      cases i with
      | zero => simp [hpx]
      | succ i =>
        -- An element with the property would give it to `x`.
        have hnone : ¬ (rest[i]?).any p = true := by
          intro hany
          obtain ⟨y, hy, hpy⟩ := (Option.any_eq_true p _).1 hany
          exact hpx (hx y (List.mem_of_getElem? hy) hpy)
        simpa using hnone

/-- In such a list, no element behind that initial part has the property. -/
theorem not_of_mem_dropWhile {α : Type} {p : α → Bool} {l : List α}
    (h : l.Pairwise fun x y => p y = true → p x = true) {x : α} (hx : x ∈ l.dropWhile p) :
    ¬ p x = true := by
  induction l with
  | nil => cases hx
  | cons y rest ih =>
    obtain ⟨hy, hrest⟩ := List.pairwise_cons.1 h
    by_cases hpy : p y = true
    · rw [List.dropWhile_cons_of_pos hpy] at hx
      exact ih hrest hx
    · rw [List.dropWhile_cons_of_neg hpy] at hx
      rcases List.mem_cons.1 hx with rfl | hx
      · exact hpy
      · exact fun hpx => hpy (hy x hx hpx)

namespace RetirementQueue

variable {α : Type}

/-- The queue is in the order of the due epochs. -/
def Sorted (q : RetirementQueue α) : Prop := q.entries.toList.Pairwise fun x y => x.due ≤ y.due

theorem Sorted.expired {q : RetirementQueue α} (h : q.Sorted) (now : Nat) :
    q.entries.toList.Pairwise fun x y => y.expired now = true → x.expired now = true :=
  h.imp fun hle hy => by
    simp only [Retired.expired, decide_eq_true_eq] at hy ⊢
    omega

theorem expiredCount_eq {q : RetirementQueue α} (h : q.Sorted) (now : Nat) :
    q.expiredCount now = (q.entries.toList.takeWhile (·.expired now)).length := by
  have hle : (q.entries.toList.takeWhile (·.expired now)).length ≤ q.entries.size := by
    simpa using (List.takeWhile_prefix (l := q.entries.toList) (·.expired now)).length_le
  refine Bisection.boundary_eq hle fun i _ => ?_
  rw [← Array.getElem?_toList]
  exact any_getElem?_iff_lt_length_takeWhile (h.expired now) i

/-- What is cut off a sorted queue has expired. -/
theorem expired_of_mem_expiredEntries {q : RetirementQueue α} (h : q.Sorted) {now : Nat}
    {x : Retired α} (hx : x ∈ q.expiredEntries now) : x.expired now = true := by
  have hcut : q.expiredEntries now = q.entries.toList.takeWhile (·.expired now) := by
    rw [expiredEntries, expiredCount_eq h]
    exact (List.prefix_iff_eq_take.1
      (List.takeWhile_prefix fun x : Retired α => x.expired now)).symm
  rw [hcut] at hx
  exact List.all_eq_true.1 (List.all_takeWhile ..) x hx

/-- What is left in a sorted queue has not expired. -/
theorem not_expired_of_mem_dropExpired {q : RetirementQueue α} (h : q.Sorted) {now : Nat}
    {x : Retired α} (hx : x ∈ (q.dropExpired now).entries.toList) : ¬ x.expired now = true := by
  let front := q.entries.toList.takeWhile (·.expired now)
  let rest := q.entries.toList.dropWhile (·.expired now)
  have hcut : (q.dropExpired now).entries.toList = rest :=
    calc (q.dropExpired now).entries.toList
      _ = q.entries.toList.drop front.length := by simp [dropExpired, expiredCount_eq h, front]
      _ = (front ++ rest).drop front.length := by rw [List.takeWhile_append_dropWhile]
      _ = rest := List.drop_left ..
  rw [hcut] at hx
  exact not_of_mem_dropWhile (h.expired now) hx

end RetirementQueue

/-! ## The collector -/

namespace Collector

variable {α : Type}

/-- The entries that wait, oldest first. -/
def entries (c : Collector α) : List (Retired α) := c.queue.entries.toList

/-- The entries of the collector are stamped with epochs that have come, in
    ascending order, are due two epochs after, and are counted. -/
structure InOrder (c : Collector α) : Prop where
  due : ∀ x ∈ c.entries, x.due = x.epoch + graceEpochs
  past : ∀ x ∈ c.entries, x.epoch ≤ c.epoch
  sorted : c.entries.Pairwise fun x y => x.epoch ≤ y.epoch
  counted : c.pending = c.entries.length

theorem inOrder_new : InOrder ({} : Collector α) where
  due := fun _ h => nomatch h
  past := fun _ h => nomatch h
  sorted := .nil
  counted := rfl

@[simp] theorem entries_retire (c : Collector α) (value : α) :
    (c.retire value).entries = c.entries ++ [.inEpoch c.epoch value] := by
  simp [entries, retire, RetirementQueue.push]

theorem epoch_le_unpin (c : Collector α) (e : Nat) : c.epoch ≤ (c.unpin e).epoch :=
  EpochClock.epoch_le_tryAdvance (c.clock.leave e)

theorem epoch_le_tryAdvance (c : Collector α) : c.epoch ≤ c.tryAdvance.epoch :=
  EpochClock.epoch_le_tryAdvance c.clock

namespace InOrder

variable {c : Collector α}

/-- The order is kept when the epoch moves on and the queue stays. -/
theorem later {d : Collector α} (h : c.InOrder) (hq : d.entries = c.entries)
    (hp : d.pending = c.pending) (he : c.epoch ≤ d.epoch) : d.InOrder where
  due := by rw [hq]; exact h.due
  past := by rw [hq]; exact fun x hx => Nat.le_trans (h.past x hx) he
  sorted := by rw [hq]; exact h.sorted
  counted := by rw [hp, hq]; exact h.counted

theorem retire (h : c.InOrder) (value : α) : (c.retire value).InOrder := by
  constructor
  · intro x hx
    rcases List.mem_append.1 (entries_retire c value ▸ hx) with hold | hnew
    · exact h.due x hold
    · rw [List.mem_singleton.1 hnew]; rfl
  · intro x hx
    rcases List.mem_append.1 (entries_retire c value ▸ hx) with hold | hnew
    · exact h.past x hold
    · rw [List.mem_singleton.1 hnew]; exact Nat.le_refl _
  · rw [entries_retire, List.pairwise_append]
    refine ⟨h.sorted, List.pairwise_singleton .., fun x hx y hy => ?_⟩
    rw [List.mem_singleton.1 hy]
    exact h.past x hx
  · rw [entries_retire, List.length_append, ← h.counted]; rfl

theorem pending_ne_zero (h : c.InOrder) {x : Retired α} (hx : x ∈ c.entries) : c.pending ≠ 0 := by
  rw [h.counted]
  exact Nat.ne_of_gt (List.length_pos_of_mem hx)

theorem queueSorted (h : c.InOrder) : c.queue.Sorted := by
  refine List.Pairwise.imp_of_mem (fun hx hy hle => ?_) h.sorted
  rw [h.due _ hx, h.due _ hy]
  omega

end InOrder

/-- What the collector hands over had been waiting, in front of what waits on. -/
theorem waiting_takeExpired (c : Collector α) :
    c.waiting = c.takeExpired.1 ++ c.takeExpired.2.waiting := by
  unfold takeExpired waiting
  split
  · rfl
  · have hcut := RetirementQueue.expiredEntries_append_dropExpired c.tryAdvance.queue
      c.tryAdvance.epoch
    show c.tryAdvance.queue.entries.toList.map (·.value) = _
    rw [← hcut, List.map_append]

/-- The entries that the collector hands over were retired at least two epochs
    before the epoch it has then. The others stay, in their order. -/
theorem InOrder.takeExpired {c : Collector α} (h : c.InOrder) :
    ∃ taken : List (Retired α), c.takeExpired.1 = taken.map (·.value) ∧
      c.entries = taken ++ c.takeExpired.2.entries ∧
      (∀ x ∈ taken, x.epoch + graceEpochs ≤ c.takeExpired.2.epoch) ∧
      c.takeExpired.2.InOrder := by
  have hle := epoch_le_tryAdvance c
  unfold Collector.takeExpired
  split
  next => exact ⟨[], rfl, rfl, (fun _ hx => nomatch hx), h⟩
  next =>
    have hadvanced : c.tryAdvance.InOrder := h.later rfl rfl hle
    have hcut := RetirementQueue.expiredEntries_append_dropExpired c.tryAdvance.queue
      c.tryAdvance.epoch
    have hsplit : c.entries = c.tryAdvance.queue.expiredEntries c.tryAdvance.epoch
        ++ (c.tryAdvance.queue.dropExpired c.tryAdvance.epoch).entries.toList := hcut.symm
    refine ⟨c.tryAdvance.queue.expiredEntries c.tryAdvance.epoch, rfl, hsplit, ?_, ?_⟩
    · intro x hx
      have hexpired := RetirementQueue.expired_of_mem_expiredEntries hadvanced.queueSorted hx
      have hmem : x ∈ c.entries := by rw [hsplit]; exact List.mem_append_left _ hx
      have hdue := h.due x hmem
      simp only [Retired.expired, decide_eq_true_eq] at hexpired
      show x.epoch + graceEpochs ≤ c.tryAdvance.epoch
      omega
    · have hsub : ∀ x ∈ (c.tryAdvance.queue.dropExpired c.tryAdvance.epoch).entries.toList,
          x ∈ c.entries := fun x hx => by rw [hsplit]; exact List.mem_append_right _ hx
      constructor
      · exact fun x hx => h.due x (hsub x hx)
      · exact fun x hx => hadvanced.past x (hsub x hx)
      · have hsorted := h.sorted
        rw [hsplit, List.pairwise_append] at hsorted
        exact hsorted.2.1
      · show c.pending - _ = _
        have hlen := congrArg List.length hsplit
        rw [List.length_append, ← h.counted] at hlen
        show c.pending - _
          = (c.tryAdvance.queue.dropExpired c.tryAdvance.epoch).entries.toList.length
        omega

/-- What the collector keeps was retired less than two epochs before the epoch
    it has then. -/
theorem InOrder.lt_of_mem_takeExpired {c : Collector α} (h : c.InOrder) {x : Retired α}
    (hx : x ∈ c.takeExpired.2.entries) : c.takeExpired.2.epoch < x.epoch + graceEpochs := by
  obtain ⟨taken, -, hsplit, -⟩ := h.takeExpired
  have hdue := h.due x (by rw [hsplit]; exact List.mem_append_right _ hx)
  unfold Collector.takeExpired at hx ⊢
  split
  next hnone =>
    -- Nothing waits.
    have hempty : c.entries = [] := List.eq_nil_of_length_eq_zero (h.counted ▸ hnone)
    rw [if_pos hnone, hempty] at hx
    cases hx
  next hsome =>
    rw [if_neg hsome] at hx
    have hadvanced : c.tryAdvance.InOrder := h.later rfl rfl (epoch_le_tryAdvance c)
    have hleft := RetirementQueue.not_expired_of_mem_dropExpired hadvanced.queueSorted hx
    simp only [Retired.expired, decide_eq_true_eq] at hleft
    show c.tryAdvance.epoch < x.epoch + graceEpochs
    omega

end Collector

end TransactionalMemory
