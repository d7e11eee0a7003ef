import TransactionalMemory.Proofs.Reclaim.Participants

/-! # Three buckets are enough

    A clock is called in three ways. A participant enters, and is told the epoch
    in which it is counted; it leaves, and gives that epoch back; and anybody
    may try to move the epoch along, and is told the epoch after the attempt.

    Only the epochs of those who have entered and not left tell what the counts
    should be. The ideas:

    1. Everybody who is there belongs to the current epoch or to the one before,
       because the epoch does not move on while somebody of the one before is left.
    2. These two epochs and the next one have buckets of their own, so each
       bucket counts the participants of one epoch.
    3. The bucket that the next epoch takes over was that of an epoch which
       nobody is left of, so it is empty.

    `Tallies` says so of the counts; here the counts are those of a list of
    participants, along any sequence of calls. -/

namespace TransactionalMemory

/-! ## Calls of a clock -/

inductive ClockCall where
  | enter
  /-- A participant that was told epoch `e` leaves. -/
  | leave (e : Nat)
  | advance
  deriving DecidableEq

/-- A clock with the epochs that its participants were told, as far as they have
    not left. -/
structure AttendedClock where
  clock : EpochClock := {}
  /-- The epochs of those who have entered and not left, the latest one first. -/
  present : List Nat := []
  deriving DecidableEq

namespace EpochClock

/-- Tries to move the epoch along, and tells the epoch after the attempt: the one
    that was read, if somebody of the previous epoch is left, else the next one. -/
def attempt (c : EpochClock) : Nat × EpochClock :=
  let epoch := c.epoch
  if c.pinnedIn (epoch - 1) = 0 then (epoch + 1, { c with epoch := epoch + 1 }) else (epoch, c)

/-- What is told is the epoch of the clock that the attempt leaves behind. -/
theorem attempt_eq (c : EpochClock) : c.attempt = (c.tryAdvance.epoch, c.tryAdvance) := by
  unfold attempt tryAdvance
  dsimp only
  split <;> rfl

end EpochClock

namespace AttendedClock

/-- What the caller is told, if anything, and what the call leaves behind. -/
def call (s : AttendedClock) : ClockCall → Option Nat × AttendedClock
  | .enter => (some s.clock.epoch, ⟨s.clock.enter, s.clock.epoch :: s.present⟩)
  | .leave e => (none, ⟨s.clock.leave e, s.present.erase e⟩)
  | .advance => let (epoch, clock) := s.clock.attempt; (some epoch, { s with clock })

def run (s : AttendedClock) : List ClockCall → AttendedClock
  | [] => s
  | c :: rest => (s.call c).2.run rest

/-- Whether whoever leaves is there. -/
def Allows (s : AttendedClock) : ClockCall → Prop
  | .leave e => e ∈ s.present
  | .enter | .advance => True

/-- Whether everybody who leaves in a sequence of calls is there. -/
def Orderly (s : AttendedClock) : List ClockCall → Prop
  | [] => True
  | c :: rest => s.Allows c ∧ (s.call c).2.Orderly rest

instance (s : AttendedClock) : (c : ClockCall) → Decidable (s.Allows c)
  | .leave e => inferInstanceAs (Decidable (e ∈ s.present))
  | .enter | .advance => inferInstanceAs (Decidable True)

instance decidableOrderly (s : AttendedClock) : (calls : List ClockCall) →
    Decidable (s.Orderly calls)
  | [] => inferInstanceAs (Decidable True)
  | c :: rest =>
    have := decidableOrderly (s.call c).2 rest
    inferInstanceAs (Decidable (s.Allows c ∧ (s.call c).2.Orderly rest))

variable {s : AttendedClock}

/-! ## The counts are those of the participants -/

/-- The number of participants that were told epoch `e`. -/
def presentIn (s : AttendedClock) (e : Nat) : Nat := s.present.count e

theorem presentIn_enter (s : AttendedClock) :
    (s.call .enter).2.presentIn = EpochClock.joined s.presentIn s.clock.epoch := by
  funext e
  show (s.clock.epoch :: s.present).count e = _
  unfold EpochClock.joined presentIn
  by_cases he : e = s.clock.epoch
  · subst he
    rw [if_pos rfl, List.count_cons_self]
  · rw [if_neg he, List.count_cons_of_ne (Ne.symm he)]

/-- Before somebody leaves, there is one more of its epoch. -/
theorem presentIn_leave {e : Nat} (he : e ∈ s.present) :
    s.presentIn = EpochClock.joined (s.call (.leave e)).2.presentIn e := by
  have hpos : 0 < s.present.count e := List.count_pos_iff.2 he
  funext f
  show s.present.count f = EpochClock.joined (fun g => (s.present.erase e).count g) e f
  unfold EpochClock.joined
  dsimp only
  by_cases hf : f = e
  · subst hf
    rw [if_pos rfl, List.count_erase_self]
    omega
  · rw [if_neg hf, List.count_erase_of_ne hf]

/-- Every call of somebody who may call keeps the counts right. -/
theorem tallies_call (h : s.clock.Tallies s.presentIn) {c : ClockCall} (hc : s.Allows c) :
    (s.call c).2.clock.Tallies (s.call c).2.presentIn := by
  cases c with
  | enter =>
    rw [presentIn_enter]
    exact h.enter
  | leave e =>
    rw [presentIn_leave hc] at h
    exact h.leave
  | advance =>
    simp only [call, EpochClock.attempt_eq]
    exact h.tryAdvance

/-- So does a sequence of calls. -/
theorem tallies_run (h : s.clock.Tallies s.presentIn) {calls : List ClockCall}
    (hcalls : s.Orderly calls) : (s.run calls).clock.Tallies (s.run calls).presentIn := by
  induction calls generalizing s with
  | nil => exact h
  | cons c rest ih =>
    obtain ⟨hfirst, hrest⟩ := hcalls
    have hafter := tallies_call h hfirst
    exact ih hafter hrest

/-! ## What each bucket counts -/

/-- The buckets of the current epoch and of the one before count who is there, and
    tell what the next call does. -/
structure Separates (s : AttendedClock) : Prop where
  /-- There is an epoch before the current one. -/
  pos : 0 < s.clock.epoch
  /-- Whoever is there belongs to the current epoch or to the one before. -/
  recent : ∀ e ∈ s.present, e = s.clock.epoch ∨ e = s.clock.epoch - 1
  current : s.clock.pinnedIn s.clock.epoch = s.presentIn s.clock.epoch
  previous : s.clock.pinnedIn (s.clock.epoch - 1) = s.presentIn (s.clock.epoch - 1)
  /-- The third bucket is another one than these two, and empty. -/
  third : ∀ b, b ≠ EpochClock.bucket s.clock.epoch → b ≠ EpochClock.bucket (s.clock.epoch - 1) →
    s.clock.buckets[b] = 0
  /-- Participants of different epochs do not share a bucket, -/
  apart : ∀ e ∈ s.present, ∀ f ∈ s.present, EpochClock.bucket e = EpochClock.bucket f → e = f
  /-- so whoever is there finds those of its own epoch in its bucket, and itself among them. -/
  own : ∀ e ∈ s.present, s.clock.pinnedIn e = s.presentIn e ∧ 0 < s.clock.pinnedIn e
  /-- Whoever leaves is counted off. -/
  leaves : ∀ e ∈ s.present,
    (s.call (.leave e)).2.clock.pinnedIn e + 1 = s.clock.pinnedIn e
  /-- The epoch moves on if nobody of the previous one is left, and only then; -/
  advances : (s.call .advance).2.clock.epoch = s.clock.epoch + 1 ↔ s.clock.epoch - 1 ∉ s.present
  /-- nothing else changes, and otherwise nothing at all. -/
  moves : s.clock.epoch - 1 ∉ s.present →
    (s.call .advance).2 = { s with clock := { s.clock with epoch := s.clock.epoch + 1 } }
  stays : s.clock.epoch - 1 ∈ s.present → (s.call .advance).2 = s
  /-- The caller is told the epoch after the attempt. -/
  told : (s.call .advance).1 = some (s.call .advance).2.clock.epoch
  /-- Whoever enters is told the epoch in which it is counted from then on. -/
  enters : (s.call .enter).1 = some s.clock.epoch ∧
    (s.call .enter).2.clock.pinnedIn s.clock.epoch = s.clock.pinnedIn s.clock.epoch + 1

/-- Neighbouring epochs have different buckets, and there are three. -/
theorem buckets_of_epochs {e : Nat} (he : 0 < e) :
    EpochClock.bucket e ≠ EpochClock.bucket (e - 1) ∧
      ∀ b, b ≠ EpochClock.bucket e → b ≠ EpochClock.bucket (e - 1) →
        b = EpochClock.bucket (e + 1) := by
  constructor
  · intro heq
    have hmod := (EpochClock.bucket_eq_iff e (e - 1)).1 heq
    unfold epochBuckets at hmod
    omega
  · intro b hcurrent hprevious
    have hb : b.val < 3 := b.isLt
    have h₁ : b.val ≠ e % 3 := fun heq => hcurrent (Fin.ext heq)
    have h₂ : b.val ≠ (e - 1) % 3 := fun heq => hprevious (Fin.ext heq)
    apply Fin.ext
    show b.val = (e + 1) % 3
    omega

theorem separates_of_tallies (h : s.clock.Tallies s.presentIn) : s.Separates := by
  have hpos := h.pos
  obtain ⟨hbuckets, hthree⟩ := buckets_of_epochs hpos
  have hmem : ∀ e, e ∈ s.present ↔ s.presentIn e ≠ 0 := by
    intro e
    unfold presentIn
    rw [← List.count_pos_iff]
    omega
  have hrecent : ∀ e ∈ s.present, e = s.clock.epoch ∨ e = s.clock.epoch - 1 := by
    intro e he
    have hor := h.recent e ((hmem e).1 he)
    omega
  have hown : ∀ e ∈ s.present, s.clock.pinnedIn e = s.presentIn e ∧ 0 < s.clock.pinnedIn e := by
    intro e he
    have hsome := (hmem e).1 he
    have heq : s.clock.pinnedIn e = s.presentIn e := by
      rcases hrecent e he with rfl | rfl
      · exact h.current
      · exact h.previous
    omega
  -- Whether the epoch moves on is read off the bucket of the previous one.
  have hempty : s.clock.pinnedIn (s.clock.epoch - 1) = 0 ↔ s.clock.epoch - 1 ∉ s.present := by
    rw [h.previous, hmem]
    omega
  have hmoves : s.clock.epoch - 1 ∉ s.present →
      (s.call .advance).2 = { s with clock := { s.clock with epoch := s.clock.epoch + 1 } } := by
    intro hgone
    simp only [call, EpochClock.attempt, if_pos (hempty.2 hgone)]
  have hstays : s.clock.epoch - 1 ∈ s.present → (s.call .advance).2 = s := by
    intro hleft
    have hsome : ¬ s.clock.pinnedIn (s.clock.epoch - 1) = 0 := fun hzero => hempty.1 hzero hleft
    simp only [call, EpochClock.attempt, if_neg hsome]
  constructor
  · exact hpos
  · exact hrecent
  · exact h.current
  · exact h.previous
  · intro b hcurrent hprevious
    have hnext := h.next
    rw [hthree b hcurrent hprevious]
    exact hnext
  · intro e he f hf heq
    rcases hrecent e he with rfl | rfl <;> rcases hrecent f hf with rfl | rfl
    · rfl
    · exact absurd heq hbuckets
    · exact absurd heq.symm hbuckets
    · rfl
  · exact hown
  · intro e he
    have hcounted := (hown e he).2
    show (s.clock.setPinned e (s.clock.pinnedIn e - 1)).pinnedIn e + 1 = _
    rw [EpochClock.pinnedIn_setPinned_self]
    omega
  · constructor
    · intro hmoved hleft
      rw [hstays hleft] at hmoved
      omega
    · intro hgone
      rw [hmoves hgone]
  · exact hmoves
  · exact hstays
  · show some s.clock.attempt.1 = some s.clock.attempt.2.epoch
    rw [EpochClock.attempt_eq]
  · constructor
    · rfl
    · show (s.clock.setPinned s.clock.epoch _).pinnedIn s.clock.epoch = _
      rw [EpochClock.pinnedIn_setPinned_self]

/-- After every sequence of calls in which only participants leave that are there,
    three buckets keep the participants of different epochs apart. -/
theorem run_separates (calls : List ClockCall) (hcalls : Orderly {} calls) :
    Separates (run {} calls) := by
  have hstart : EpochClock.Tallies {} (presentIn {}) := EpochClock.tallies_new
  have hafter := tallies_run (s := {}) hstart hcalls
  exact separates_of_tallies hafter

/-- Two participants of epoch 1 and one of epoch 2: once the first two have left,
    the epoch moves on twice, and the bucket of epoch 1 is in use again. -/
def handover : List ClockCall :=
  [.enter, .enter, .advance, .enter, .advance, .leave 1, .leave 1, .advance, .leave 2, .advance,
    .enter]

/-- The participant of epoch 4 is counted where those of epoch 1 were. -/
theorem run_separates_handover :
    Orderly {} handover ∧ (run {} handover).present = [4] ∧
      EpochClock.bucket 4 = EpochClock.bucket 1 ∧ (run {} handover).clock.pinnedIn 1 = 1 ∧
      Separates (run {} handover) := by
  have horderly : Orderly {} handover := by decide
  exact ⟨horderly, by decide, by decide, by decide, run_separates handover horderly⟩

end AttendedClock

end TransactionalMemory
