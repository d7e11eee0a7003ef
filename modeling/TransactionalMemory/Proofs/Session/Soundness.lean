import TransactionalMemory.Proofs.Session.Steadiness

/-! # Sound sessions

    What holds of a session after an orderly run. It is steady; its slots,
    segments and retirements agree; the clock counts the open transactions; and
    the logs of slots say who holds what:

    - every word in a log is in a segment that its transaction still keeps;
    - a slot that a transaction allocated or freed is in the log of that
      transaction and of no other one.

    Soundness is kept by every orderly effect. -/

namespace TransactionalMemory

namespace Transaction

/-- The transaction has the word in its log of claims or of observations. -/
def Reaches (t : Transaction) (ref : WordRef) : Prop :=
  ref ∈ t.touched ∨ ∃ seq, ⟨ref, seq⟩ ∈ t.observed

/-- What the logs of an open transaction say is so in the region. -/
structure Logged (t : Transaction) (r : Region) : Prop where
  readers : t.isReadOnly = true →
    t.touched = [] ∧ t.observed = [] ∧ t.allocated = [] ∧ t.freed = []
  words : ∀ ref, t.Reaches ref → (r.cell? ref).isSome
  reached : ∀ ref, t.Reaches ref → ∃ i, r.Keeps t.epoch i ref.segment
  allocatedOnce : t.allocated.Nodup
  allocated : ∀ i ∈ t.allocated, ∃ n, r.Holds t.epoch i n
  freedOnce : t.freed.Nodup
  freed : ∀ i ∈ t.freed, ∃ n, r.table.lookup i = .freeing n

namespace Logged

variable {t : Transaction} {r r' : Region}

theorem doom (h : t.Logged r) : t.doom.Logged r :=
  ⟨h.readers, h.words, h.reached, h.allocatedOnce, h.allocated, h.freedOnce, h.freed⟩

/-- The logs stay true as long as the region keeps what they rely on. -/
theorem mono (h : t.Logged r)
    (hcells : ∀ ref, t.Reaches ref → (r.cell? ref).isSome → (r'.cell? ref).isSome)
    (hkeeps : ∀ i n, r.Keeps t.epoch i n → r'.Keeps t.epoch i n)
    (hholds : ∀ i ∈ t.allocated, ∀ n, r.Holds t.epoch i n → r'.Holds t.epoch i n)
    (hfreed : ∀ i ∈ t.freed, r'.table.lookup i = r.table.lookup i) : t.Logged r' where
  readers := h.readers
  words := fun ref href => hcells ref href (h.words ref href)
  reached := by
    intro ref href
    obtain ⟨i, hi⟩ := h.reached ref href
    exact ⟨i, hkeeps i _ hi⟩
  allocatedOnce := h.allocatedOnce
  allocated := by
    intro i hi
    obtain ⟨n, hn⟩ := h.allocated i hi
    exact ⟨n, hholds i hi n hn⟩
  freedOnce := h.freedOnce
  freed := by
    intro i hi
    rw [hfreed i hi]
    exact h.freed i hi

end Logged

end Transaction

namespace Session

variable {s : Session} {h k : Handle} {t t' u : Transaction} {r' : Region}

/-- What holds of a session between its operations, if they are orderly. -/
structure Sound (s : Session) : Prop extends s.Steady where
  slotted : s.region.Slotted
  inOrder : s.region.collector.InOrder
  tallies : s.region.collector.clock.Tallies s.pinnedIn
  logged : ∀ h t, s.open? h = some t → t.Logged s.region
  allocatedApart : ∀ h k t u i, s.open? h = some t → s.open? k = some u →
    i ∈ t.allocated → i ∈ u.allocated → h = k
  freedApart : ∀ h k t u i, s.open? h = some t → s.open? k = some u →
    i ∈ t.freed → i ∈ u.freed → h = k

/-! ## Open transactions in numbers -/

theorem getElem?_of_open (ho : s.open? h = some t) : s.transactions[h]? = some (some t) := by
  unfold open? at ho
  rcases hget : s.transactions[h]? with _ | o
  · rw [hget] at ho; cases ho
  · rw [hget] at ho; exact congrArg some ho

/-- The number of those that pin an epoch changes with the transaction that is put back. -/
theorem pinnedIn_put {o : Option Transaction} {r : Region} (ho : s.open? h = some t) (e : Nat) :
    (s.put h o r).pinnedIn e =
      s.pinnedIn e - (if t.epoch = e then 1 else 0)
        + (if o.any (fun t => t.epoch == e) then 1 else 0) := by
  obtain ⟨hlt, hget⟩ := Array.getElem?_eq_some_iff.1 (getElem?_of_open ho)
  unfold pinnedIn put
  rw [Array.toList_setIfInBounds, List.countP_set (by simpa using hlt)]
  simp [hget]

theorem pinnedIn_ne_zero (ho : s.open? h = some t) : s.pinnedIn t.epoch ≠ 0 := by
  have hmem : some t ∈ s.transactions.toList :=
    Array.mem_toList_iff.2 (Array.mem_of_getElem? (getElem?_of_open ho))
  have hpos : 0 < s.pinnedIn t.epoch := List.countP_pos_iff.2 ⟨some t, hmem, by simp⟩
  omega

/-- A transaction that is put back with its epoch counts as before. -/
theorem pinnedIn_put_some {r : Region} (ho : s.open? h = some t) (he : t'.epoch = t.epoch) :
    (s.put h (some t') r).pinnedIn = s.pinnedIn := by
  funext e
  have hpos := pinnedIn_ne_zero ho
  rw [pinnedIn_put ho]
  by_cases hte : t.epoch = e
  · subst hte
    simp [he]
    omega
  · simp [he, hte]

/-- A transaction that is closed was counted. -/
theorem pinnedIn_put_none {r : Region} (ho : s.open? h = some t) :
    s.pinnedIn = EpochClock.joined (s.put h none r).pinnedIn t.epoch := by
  funext e
  have hpos := pinnedIn_ne_zero ho
  rw [EpochClock.joined, pinnedIn_put ho]
  by_cases hte : e = t.epoch
  · subst hte
    simp
    omega
  · simp [hte, Ne.symm hte]

namespace Sound

/-- Whoever is open pins an epoch that has come. -/
theorem epoch_le (hs : s.Sound) (ho : s.open? h = some t) : t.epoch ≤ s.region.collector.epoch :=
  (hs.tallies.epoch_le_of_ne_zero (pinnedIn_ne_zero ho)).1

/-- The words that a transaction has claimed are there. -/
theorem cell?_of_touched (hs : s.Sound) (ho : s.open? h = some t) {ref : WordRef}
    (href : ref ∈ t.touched) :
    ∃ c, s.region.cell? ref = some c ∧ c.accessor = some t.id := by
  obtain ⟨c, hc⟩ := Option.isSome_iff_exists.1 ((hs.logged h t ho).words ref (.inl href))
  obtain ⟨seg, hseg, -⟩ := Region.cell?_eq_some_iff.1 hc
  exact (hs.claims h t ho ref href).2 (by rw [hseg]; rfl)

end Sound

/-! ## Logs that have no entry in common -/

/-- Of two open transactions, none has an entry in its log that the other one has. -/
def Apart {α : Type} (s : Session) (log : Transaction → List α) : Prop :=
  ∀ h k t u x, s.open? h = some t → s.open? k = some u → x ∈ log t → x ∈ log u → h = k

namespace Apart

variable {α : Type} {log : Transaction → List α} (hs : s.Apart log)

include hs

/-- A transaction is put back; what is new in its log was in no log. -/
theorem put (ho : s.open? h = some t)
    (hnew : ∀ x ∈ log t', x ∈ log t ∨ ∀ k u, s.open? k = some u → x ∉ log u) :
    (s.put h (some t') r').Apart log := by
  have hself : (s.put h (some t') r').open? h = some t' := open?_put_self ho
  have hother : ∀ k, k ≠ h → (s.put h (some t') r').open? k = s.open? k := fun k hk =>
    open?_put_ne hk
  intro j k v u x hv hu hxv hxu
  by_cases hj : j = h <;> by_cases hk : k = h
  · rw [hj, hk]
  · rw [hj, hself] at hv
    rw [hother k hk] at hu
    cases hv
    rcases hnew x hxv with hmem | hfresh
    · exact hj.trans (hs h k t u x ho hu hmem hxu)
    · exact absurd hxu (hfresh k u hu)
  · rw [hother j hj] at hv
    rw [hk, hself] at hu
    cases hu
    rcases hnew x hxu with hmem | hfresh
    · exact (hs j h v t x hv ho hxv hmem).trans hk.symm
    · exact absurd hxv (hfresh j v hv)
  · rw [hother j hj] at hv
    rw [hother k hk] at hu
    exact hs j k v u x hv hu hxv hxu

/-- A transaction is closed. -/
theorem put_none (ho : s.open? h = some t) : (s.put h none r').Apart log :=
  fun j k v u x hv hu =>
    hs j k v u x (open?_of_put_none ho hv).1 (open?_of_put_none ho hu).1

/-- A transaction with an empty log begins. -/
theorem began {s' : Session} (hb : Begins s s' t) (hempty : log t = []) : s'.Apart log := by
  intro j k v u x hv hu hxv hxu
  rcases hb.before hv with hv | ⟨_, rfl⟩
  · rcases hb.before hu with hu | ⟨_, rfl⟩
    · exact hs j k v u x hv hu hxv hxu
    · rw [hempty] at hxu; cases hxu
  · rw [hempty] at hxv; cases hxv

end Apart

/-! ## One transaction is put back -/

/-- What is left to show when one transaction goes on with other logs, in a
    region with the same clock. -/
theorem Sound.put (hs : s.Sound) (ho : s.open? h = some t)
    (hsteady : (s.put h (some t') r').Steady) (hepoch : t'.epoch = t.epoch)
    (hclock : r'.collector.clock = s.region.collector.clock) (hslotted : r'.Slotted)
    (hinOrder : r'.collector.InOrder) (hlogged : t'.Logged r')
    (hothers : ∀ k u, k ≠ h → s.open? k = some u → u.Logged r')
    (hallocated : ∀ i ∈ t'.allocated,
      i ∈ t.allocated ∨ ∀ k u, s.open? k = some u → i ∉ u.allocated)
    (hfreed : ∀ i ∈ t'.freed, i ∈ t.freed ∨ ∀ k u, s.open? k = some u → i ∉ u.freed) :
    (s.put h (some t') r').Sound := by
  refine ⟨hsteady, hslotted, hinOrder, ?_, fun k u hu => ?_,
    (show s.Apart Transaction.allocated from hs.allocatedApart).put ho hallocated,
    (show s.Apart Transaction.freed from hs.freedApart).put ho hfreed⟩
  · show r'.collector.clock.Tallies _
    rw [hclock, pinnedIn_put_some ho hepoch]
    exact hs.tallies
  · by_cases hk : k = h
    · rw [hk, open?_put_self ho] at hu
      cases hu
      exact hlogged
    · rw [open?_put_ne hk] at hu
      exact hothers k u hk hu

end Session

end TransactionalMemory
