import TransactionalMemory.Proofs.Reclaim.Expiry
import TransactionalMemory.Proofs.Reclaim.Participants
import TransactionalMemory.Reclaim.GuardedCollector

/-! # Guards and their epochs

    The clock of a collector counts the guards that have been taken on it and
    not given back, in the epochs that they remember. So these are the current
    epoch and the one before.

    Hence the collector may hand over what was retired two epochs ago: a guard
    that could still see it would remember an epoch that is too old to be
    counted. -/

namespace TransactionalMemory.GuardedCollector

variable {α : Type}

/-- The number of guards that remember epoch `e` and have not been given back. -/
def guardsIn (g : GuardedCollector α) (e : Nat) : Nat := g.guards.toList.count (some e)

/-! ## Guards by their numbers -/

theorem guard?_eq_some_iff {g : GuardedCollector α} {n e : Nat} :
    g.guard? n = some e ↔ g.guards[n]? = some (some e) := by
  simp [guard?, Option.join_eq_some_iff]

theorem lt_size_of_guard? {g : GuardedCollector α} {n e : Nat} (h : g.guard? n = some e) :
    n < g.guards.size :=
  (Array.getElem?_eq_some_iff.1 (guard?_eq_some_iff.1 h)).1

/-- A guard that has not been given back is counted in its epoch. -/
theorem guardsIn_ne_zero {g : GuardedCollector α} {n e : Nat} (h : g.guard? n = some e) :
    g.guardsIn e ≠ 0 := by
  have hmem : some e ∈ g.guards.toList :=
    Array.mem_toList_iff.2 (Array.mem_of_getElem? (guard?_eq_some_iff.1 h))
  exact Nat.ne_of_gt (List.count_pos_iff.2 hmem)

theorem guardsIn_pin (g : GuardedCollector α) :
    g.pin.2.guardsIn = EpochClock.joined g.guardsIn g.collector.epoch := by
  funext f
  simp only [guardsIn, pin, Array.toList_push, List.count_append, EpochClock.joined]
  by_cases hf : f = g.collector.epoch
  · simp [hf]
  · simp [hf, Ne.symm hf]

theorem guardsIn_unpin {g : GuardedCollector α} {n e : Nat} (h : g.guard? n = some e) :
    g.guardsIn = EpochClock.joined (g.unpin n).guardsIn e := by
  obtain ⟨hn, hget⟩ := Array.getElem?_eq_some_iff.1 (guard?_eq_some_iff.1 h)
  have hpos : 0 < g.guardsIn e := Nat.pos_of_ne_zero (guardsIn_ne_zero h)
  have hunpin : (g.unpin n).guards.toList = g.guards.toList.set n none := by
    simp [unpin, h]
  funext f
  simp only [guardsIn, EpochClock.joined, hunpin] at hpos ⊢
  rw [List.count_set (by simpa using hn), Array.getElem_toList, hget]
  by_cases hf : f = e
  · subst hf
    simpa using (Nat.sub_add_cancel hpos).symm
  · simp [hf, Ne.symm hf]

/-- Giving a guard back leaves the queue as it is. -/
theorem entries_unpin (g : GuardedCollector α) (n : Nat) :
    (g.unpin n).collector.entries = g.collector.entries := by
  unfold unpin
  split <;> rfl

/-! ## What every operation keeps -/

/-- The clock counts the guards, and the queue is in order. -/
structure Sound (g : GuardedCollector α) : Prop where
  tallies : g.collector.clock.Tallies g.guardsIn
  inOrder : g.collector.InOrder

/-- A new collector has no guards. -/
theorem sound_new : Sound ({} : GuardedCollector α) where
  tallies := by
    have hnone : guardsIn ({} : GuardedCollector α) = fun _ => 0 := funext fun e => by
      simp [guardsIn]
    rw [hnone]
    exact EpochClock.tallies_new
  inOrder := Collector.inOrder_new

/-- A collector after some operations: the epoch has not gone back, and a guard
    taken before them that is still there remembers the same epoch. -/
structure Later (g₀ g : GuardedCollector α) : Prop where
  epoch : g₀.collector.epoch ≤ g.collector.epoch
  taken : g₀.guards.size ≤ g.guards.size
  guards : ∀ n < g₀.guards.size, ∀ e, g.guard? n = some e → g₀.guard? n = some e

namespace Later

theorem refl (g : GuardedCollector α) : Later g g :=
  ⟨Nat.le_refl _, Nat.le_refl _, fun _ _ _ h => h⟩

theorem trans {g₀ g₁ g₂ : GuardedCollector α} (h₁ : Later g₀ g₁) (h₂ : Later g₁ g₂) :
    Later g₀ g₂ where
  epoch := Nat.le_trans h₁.epoch h₂.epoch
  taken := Nat.le_trans h₁.taken h₂.taken
  guards := fun n hn e he =>
    h₁.guards n hn e (h₂.guards n (Nat.lt_of_lt_of_le hn h₁.taken) e he)

/-- Operations that take and give back no guard. -/
theorem of_guards {g₀ g : GuardedCollector α} (hguards : g.guards = g₀.guards)
    (hepoch : g₀.collector.epoch ≤ g.collector.epoch) : Later g₀ g where
  epoch := hepoch
  taken := Nat.le_of_eq (by rw [hguards])
  guards := fun n _ e he => by rwa [guard?, hguards] at he

end Later

/-- The collector is sound after an operation as it was before. -/
structure Steps (g g' : GuardedCollector α) : Prop where
  sound : g'.Sound
  later : Later g g'

namespace Sound

variable {g : GuardedCollector α}

theorem pin (h : g.Sound) : Steps g g.pin.2 where
  sound :=
    { tallies := by rw [guardsIn_pin]; exact h.tallies.enter
      inOrder := h.inOrder.later rfl rfl (Nat.le_refl _) }
  later :=
    { epoch := Nat.le_refl _
      taken := by simp [GuardedCollector.pin]
      guards := fun n hn e he => by
        rw [guard?_eq_some_iff] at he ⊢
        rwa [GuardedCollector.pin, Array.getElem?_push_lt hn,
          ← Array.getElem?_eq_getElem hn] at he }

theorem unpin (h : g.Sound) (n : Nat) : Steps g (g.unpin n) := by
  cases hguard : g.guard? n with
  | none =>
    have hsame : g.unpin n = g := by simp [GuardedCollector.unpin, hguard]
    rw [hsame]
    exact ⟨h, .refl g⟩
  | some e =>
    have hclock : (g.unpin n).collector = g.collector.unpin e := by
      simp [GuardedCollector.unpin, hguard]
    have hguards : (g.unpin n).guards = g.guards.setIfInBounds n none := by
      simp [GuardedCollector.unpin, hguard]
    have hcounted : g.collector.clock.Tallies (EpochClock.joined (g.unpin n).guardsIn e) :=
      guardsIn_unpin hguard ▸ h.tallies
    refine ⟨⟨?_, ?_⟩, ?_, ?_, fun k hk f hf => ?_⟩
    · rw [hclock]
      exact hcounted.leave.tryAdvance
    · rw [hclock]
      exact h.inOrder.later rfl rfl (Collector.epoch_le_unpin ..)
    · rw [hclock]
      exact Collector.epoch_le_unpin ..
    · simp [hguards]
    · rw [guard?_eq_some_iff, hguards, Array.getElem?_setIfInBounds] at hf
      rw [guard?_eq_some_iff]
      split at hf
      · simp at hf
      · exact hf

theorem retire (h : g.Sound) (value : α) : Steps g (g.retire value) where
  sound := ⟨h.tallies, h.inOrder.retire value⟩
  later := .of_guards rfl (Nat.le_refl _)

theorem tryAdvance (h : g.Sound) : Steps g g.tryAdvance where
  sound :=
    { tallies := h.tallies.tryAdvance
      inOrder := h.inOrder.later rfl rfl (Collector.epoch_le_tryAdvance _) }
  later := .of_guards rfl (Collector.epoch_le_tryAdvance _)

/-- Taking out the expired values is an attempt to advance for the clock. -/
theorem takeExpired (h : g.Sound) : Steps g g.takeExpired.2 := by
  obtain ⟨-, -, -, -, hinOrder⟩ := h.inOrder.takeExpired
  refine ⟨⟨?_, hinOrder⟩, .of_guards rfl ?_⟩
  · show g.collector.takeExpired.2.clock.Tallies g.guardsIn
    unfold Collector.takeExpired
    split
    · exact h.tallies
    · exact h.tallies.tryAdvance
  · show g.collector.epoch ≤ g.collector.takeExpired.2.epoch
    unfold Collector.takeExpired
    split
    · exact Nat.le_refl _
    · exact Collector.epoch_le_tryAdvance _

/-- A guard that has not been given back remembers the current epoch or the one before. -/
theorem recent (h : g.Sound) {n e : Nat} (hguard : g.guard? n = some e) :
    e ≤ g.collector.epoch ∧ g.collector.epoch ≤ e + 1 :=
  h.tallies.epoch_le_of_ne_zero (guardsIn_ne_zero hguard)

end Sound

/-! ## When a value can no longer be seen -/

/-- Nobody who could see, in `g`, what was retired in `g₀`: two epochs have
    passed, every guard is of a later epoch, and the guards of then are gone. -/
structure Unseen (g₀ g : GuardedCollector α) : Prop where
  due : g₀.collector.epoch + graceEpochs ≤ g.collector.epoch
  younger : ∀ n e, g.guard? n = some e → g₀.collector.epoch < e
  gone : ∀ n e, g₀.guard? n = some e → g.guard? n = none

theorem unseen_of_due {g₀ g : GuardedCollector α} (h₀ : g₀.Sound) (h : g.Sound)
    (hlater : Later g₀ g) (hdue : g₀.collector.epoch + graceEpochs ≤ g.collector.epoch) :
    Unseen g₀ g := by
  have hyounger : ∀ n e, g.guard? n = some e → g₀.collector.epoch < e := by
    intro n e he
    have := h.recent he
    simp only [graceEpochs] at hdue
    omega
  refine ⟨hdue, hyounger, fun n e₀ he₀ => ?_⟩
  cases hguard : g.guard? n with
  | none => rfl
  | some e =>
    -- It would be the same guard, and that one is too old.
    have hsame := hlater.guards n (lt_size_of_guard? he₀) e hguard
    rw [he₀] at hsame
    cases hsame
    have := hyounger n e₀ hguard
    have := (h₀.recent he₀).1
    omega

end TransactionalMemory.GuardedCollector
