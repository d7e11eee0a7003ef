import Mathlib.Data.List.Pairwise
import TransactionalMemory.Proofs.Reclaim.Guards

/-! # Routines on a collector

    A routine is a caller of a collector, given as data: it pins, gives guards
    back, retires values, tries to advance and reclaims, in any order, and what
    it does next depends on the answers and on a state of its own. The callback
    of a reclamation is a routine for each value, so it may do all this as well,
    while the values that the pass has taken out are still in hand.

    Running a routine keeps a history of what was retired and what was handed
    over, each with the collector as it was at that moment. To tell equal values
    apart, a value gets a ticket when it is retired: the number of retirements
    before. Neither the collector nor the routine looks at tickets.

    Whatever a routine does, a value is handed over only when nobody who could
    have seen it is left. -/

namespace TransactionalMemory

/-- A caller of a collector of values `α` with a state `σ` of its own. A run that
    goes on without end has all its moments in runs of routines that stop. -/
inductive Routine (α σ : Type) where
  | stop
  /-- It changes its own state. -/
  | change (f : σ → σ) (next : Routine α σ)
  /-- It goes on as its own state, the epoch and the number of waiting values tell. -/
  | choose (next : (epoch pending : Nat) → σ → Routine α σ)
  /-- It takes a guard. -/
  | pin (next : (number : Nat) → Routine α σ)
  /-- It gives a guard back. -/
  | unpin (number : Nat) (next : Routine α σ)
  | retire (value : α) (next : Routine α σ)
  | tryAdvance (next : (epoch : Nat) → Routine α σ)
  /-- It reclaims, doing `release` with each value that is handed over. -/
  | reclaim (release : α → Routine α σ) (next : (count : Nat) → Routine α σ)

/-- A value with the number of its retirement. -/
structure Ticketed (α : Type) where
  /-- The number of retirements before. -/
  ticket : Nat
  value : α
  deriving DecidableEq

namespace Routine

variable {α σ : Type}

/-- What happens to a value, with the collector as it is at that moment. -/
inductive Event (α : Type) where
  | retired (v : Ticketed α) (g : GuardedCollector (Ticketed α))
  /-- It is handed over for release. -/
  | released (v : Ticketed α) (g : GuardedCollector (Ticketed α))

def Event.moment : Event α → GuardedCollector (Ticketed α)
  | .retired _ g => g
  | .released _ g => g

def Event.ticket? : Event α → Option Nat
  | .retired v _ => some v.ticket
  | .released _ _ => none

abbrev History (α : Type) : Type := List (Event α)

/-- The tickets given out, newest first. -/
def History.tickets (hist : History α) : List Nat := hist.filterMap Event.ticket?

/-- A collector in use: with its history, and with the state of the routine. -/
abbrev Usage (α σ : Type) : Type := GuardedCollector (Ticketed α) × History α × σ

/-- Retires a value under the next ticket. -/
def retireNext (value : α) : Usage α σ → Usage α σ := fun (g, hist, own) =>
  let v : Ticketed α := ⟨hist.tickets.length, value⟩
  (g.retire v, .retired v g :: hist, own)

/-- Notes that a value is handed over. -/
def noteReleased (v : Ticketed α) : Usage α σ → Usage α σ := fun (g, hist, own) =>
  (g, .released v g :: hist, own)

def run : Routine α σ → StateM (Usage α σ) Unit
  | stop => pure ()
  | change f next => do
    modify fun (g, hist, own) => (g, hist, f own)
    next.run
  | choose next => do
    let (g, _, own) ← get
    (next g.collector.epoch g.collector.pending own).run
  | pin next => do
    let number ← modifyGet fun (g, own) => let (number, g) := g.pin; (number, (g, own))
    (next number).run
  | unpin number next => do
    modify fun (g, own) => (g.unpin number, own)
    next.run
  | retire value next => do
    modify (retireNext value)
    next.run
  | tryAdvance next => do
    modify fun (g, own) => (g.tryAdvance, own)
    (next (← get).1.collector.epoch).run
  | reclaim release next => do
    let released ← GuardedCollector.reclaim fun v => do
      modify (noteReleased v)
      (release v.value).run
    (next released.length).run

/-- What has happened after a routine is done with a new collector. -/
def history (routine : Routine α σ) (own : σ) : History α := (routine.run ({}, [], own)).2.2.1

/-! ## What every operation keeps -/

/-- A value that may be handed over: it was retired two epochs ago. -/
def Due (v : Ticketed α) (u : Usage α σ) : Prop :=
  ∃ g₀, .retired v g₀ ∈ u.2.1 ∧ g₀.collector.epoch + graceEpochs ≤ u.1.collector.epoch

/-- A collector in use is in order: its queue holds what was retired, each value
    with the epoch of its retirement, the moments of the history have passed, and
    everything was handed over when it could no longer be seen. -/
structure InOrder (u : Usage α σ) : Prop where
  sound : u.1.Sound
  moments : ∀ event ∈ u.2.1, event.moment.Sound ∧ event.moment.Later u.1
  fresh : ∀ k ∈ u.2.1.tickets, k < u.2.1.tickets.length
  distinct : u.2.1.tickets.Nodup
  queued : ∀ x ∈ u.1.collector.entries,
    ∃ g₀, .retired x.value g₀ ∈ u.2.1 ∧ g₀.collector.epoch = x.epoch
  handed : ∀ v g, .released v g ∈ u.2.1 → ∃ g₀, .retired v g₀ ∈ u.2.1 ∧ g₀.Unseen g

/-- A collector in use after some operations: in order, and further on. -/
structure Continues (u u' : Usage α σ) : Prop where
  inOrder : InOrder u'
  later : u.1.Later u'.1
  kept : ∀ event ∈ u.2.1, event ∈ u'.2.1

namespace Continues

variable {u u' u'' : Usage α σ}

theorem refl (h : InOrder u) : Continues u u := ⟨h, .refl u.1, fun _ h => h⟩

theorem trans (h₁ : Continues u u') (h₂ : Continues u' u'') : Continues u u'' where
  inOrder := h₂.inOrder
  later := h₁.later.trans h₂.later
  kept := fun event h => h₂.kept event (h₁.kept event h)

/-- What may be handed over may be handed over later, too. -/
theorem due (h : Continues u u') {v : Ticketed α} (hv : Due v u) : Due v u' := by
  obtain ⟨g₀, hretired, hdue⟩ := hv
  exact ⟨g₀, h.kept _ hretired, Nat.le_trans hdue h.later.epoch⟩

end Continues

/-- A collector in use when nothing has happened yet. -/
theorem inOrder_new (own : σ) : InOrder (({}, [], own) : Usage α σ) where
  sound := GuardedCollector.sound_new
  moments := fun _ h => nomatch h
  fresh := fun _ h => nomatch h
  distinct := .nil
  queued := fun _ h => nomatch h
  handed := fun _ _ h => nomatch h

namespace InOrder

variable {g g' : GuardedCollector (Ticketed α)} {hist : History α} {own own' : σ}

/-- A step of the collector that puts nothing into the queue. -/
theorem step (h : InOrder (g, hist, own)) (hstep : GuardedCollector.Steps g g')
    (hqueue : ∀ x ∈ g'.collector.entries, x ∈ g.collector.entries) :
    Continues (g, hist, own) (g', hist, own') where
  inOrder :=
    { sound := hstep.sound
      moments := fun event hmem =>
        ⟨(h.moments event hmem).1, (h.moments event hmem).2.trans hstep.later⟩
      fresh := h.fresh
      distinct := h.distinct
      queued := fun x hx => h.queued x (hqueue x hx)
      handed := h.handed }
  later := hstep.later
  kept := fun _ hmem => hmem

theorem retireNext (h : InOrder (g, hist, own)) (value : α) :
    Continues (g, hist, own) (Routine.retireNext value (g, hist, own)) := by
  let v : Ticketed α := ⟨hist.tickets.length, value⟩
  have hstep := h.sound.retire v
  have hkept : ∀ event ∈ hist, event ∈ Event.retired v g :: hist := fun _ =>
    List.mem_cons_of_mem _
  refine ⟨⟨hstep.sound, ?moments, ?fresh, ?distinct, ?queued, ?handed⟩, hstep.later, hkept⟩
  case moments =>
    rintro event (_ | ⟨_, hmem⟩)
    · exact ⟨h.sound, hstep.later⟩
    · exact ⟨(h.moments event hmem).1, (h.moments event hmem).2.trans hstep.later⟩
  case fresh =>
    intro k hk
    show k < hist.tickets.length + 1
    rcases List.mem_cons.1 hk with rfl | hk
    · exact Nat.lt_succ_self _
    · exact Nat.lt_succ_of_lt (h.fresh k hk)
  case distinct =>
    show (v.ticket :: hist.tickets).Nodup
    exact List.nodup_cons.2 ⟨fun hmem => Nat.lt_irrefl _ (h.fresh _ hmem), h.distinct⟩
  case queued =>
    intro x hx
    rcases List.mem_append.1 (Collector.entries_retire g.collector v ▸ hx) with hold | hnew
    · obtain ⟨g₀, hretired, hepoch⟩ := h.queued x hold
      exact ⟨g₀, hkept _ hretired, hepoch⟩
    · rw [List.mem_singleton.1 hnew]
      exact ⟨g, List.mem_cons_self .., rfl⟩
  case handed =>
    rintro w g₁ (_ | ⟨_, hmem⟩)
    obtain ⟨g₀, hretired, hunseen⟩ := h.handed w g₁ hmem
    exact ⟨g₀, hkept _ hretired, hunseen⟩

/-- A value that is due can no longer be seen, so it is handed over. -/
theorem noteReleased (h : InOrder (g, hist, own)) {v : Ticketed α} (hdue : Due v (g, hist, own)) :
    Continues (g, hist, own) (Routine.noteReleased v (g, hist, own)) := by
  have hkept : ∀ event ∈ hist, event ∈ Event.released v g :: hist := fun _ =>
    List.mem_cons_of_mem _
  refine ⟨⟨h.sound, ?moments, h.fresh, h.distinct, ?queued, ?handed⟩, .refl g, hkept⟩
  case moments =>
    rintro event (_ | ⟨_, hmem⟩)
    · exact ⟨h.sound, .refl g⟩
    · exact h.moments event hmem
  case queued =>
    intro x hx
    obtain ⟨g₀, hretired, hepoch⟩ := h.queued x hx
    exact ⟨g₀, hkept _ hretired, hepoch⟩
  case handed =>
    rintro w g₁ (_ | ⟨_, hmem⟩)
    · obtain ⟨g₀, hretired, hpassed⟩ := hdue
      obtain ⟨hsound, hlater⟩ := h.moments _ hretired
      exact ⟨g₀, hkept _ hretired,
        GuardedCollector.unseen_of_due hsound h.sound hlater hpassed⟩
    · obtain ⟨g₀, hretired, hunseen⟩ := h.handed w g₁ hmem
      exact ⟨g₀, hkept _ hretired, hunseen⟩

/-- What a pass takes out of the queue is due. -/
theorem takeExpired (h : InOrder (g, hist, own)) :
    Continues (g, hist, own) (g.takeExpired.2, hist, own) ∧
      ∀ v ∈ g.takeExpired.1, Due v (g.takeExpired.2, hist, own) := by
  obtain ⟨taken, hvalues, hsplit, hdue, -⟩ := h.sound.inOrder.takeExpired
  refine ⟨h.step h.sound.takeExpired fun x hx => ?_, fun v hv => ?_⟩
  · rw [hsplit]
    exact List.mem_append_right _ hx
  · change v ∈ g.collector.takeExpired.1 at hv
    rw [hvalues] at hv
    obtain ⟨x, hx, rfl⟩ := List.mem_map.1 hv
    obtain ⟨g₀, hretired, hepoch⟩ := h.queued x (by rw [hsplit]; exact List.mem_append_left _ hx)
    refine ⟨g₀, hretired, ?_⟩
    rw [hepoch]
    exact hdue x hx

end InOrder

/-- A ticket is given out once. -/
theorem eq_of_ticket? {hist : History α} (hdistinct : hist.tickets.Nodup) {k : Nat}
    {x y : Event α} (hx : x ∈ hist) (hy : y ∈ hist) (hxk : x.ticket? = some k)
    (hyk : y.ticket? = some k) : x = y := by
  have hsymm : Std.Symm fun x y : Event α =>
      ∀ k, x.ticket? = some k → ∀ k', y.ticket? = some k' → k ≠ k' :=
    ⟨fun _ _ h k hk k' hk' => (h k' hk' k hk).symm⟩
  by_contra hne
  exact (List.pairwise_filterMap.1 hdistinct).forall hx hy hne k hxk k hyk rfl

/-! ## What every run keeps -/

/-- Handing over values that are due, one after another, if what is done with
    each of them keeps the collector in order. Those still in hand stay due. -/
theorem continues_mapM {β : Type} {release : Ticketed α → StateM (Usage α σ) β}
    (hrelease : ∀ v u, InOrder u → Due v u → Continues u (release v u).2)
    (vs : List (Ticketed α)) {u : Usage α σ} (h : InOrder u) (hdue : ∀ v ∈ vs, Due v u) :
    Continues u (vs.mapM release u).2 := by
  induction vs generalizing u with
  | nil => exact .refl h
  | cons v rest ih =>
    have hfirst := hrelease v u h (hdue v (List.mem_cons_self ..))
    have hrest : ∀ w ∈ rest, Due w (release v u).2 := fun w hw =>
      hfirst.due (hdue w (List.mem_cons_of_mem _ hw))
    rw [List.mapM_cons]
    exact hfirst.trans (ih hfirst.inOrder hrest)

/-- A routine keeps the collector in order, whatever it does when values are
    handed to it. -/
theorem continues_run (routine : Routine α σ) (u : Usage α σ) (h : InOrder u) :
    Continues u (routine.run u).2 := by
  induction routine generalizing u with
  | stop => exact .refl h
  | change f next ih =>
    obtain ⟨g, hist, own⟩ := u
    have hfirst : Continues (g, hist, own) (g, hist, f own) :=
      h.step ⟨h.sound, .refl g⟩ fun _ hx => hx
    exact hfirst.trans (ih _ hfirst.inOrder)
  | choose next ih =>
    obtain ⟨g, hist, own⟩ := u
    exact ih g.collector.epoch g.collector.pending own _ h
  | pin next ih =>
    obtain ⟨g, hist, own⟩ := u
    have hfirst : Continues (g, hist, own) (g.pin.2, hist, own) :=
      h.step h.sound.pin fun _ hx => hx
    exact hfirst.trans (ih _ _ hfirst.inOrder)
  | unpin number next ih =>
    obtain ⟨g, hist, own⟩ := u
    have hfirst : Continues (g, hist, own) (g.unpin number, hist, own) :=
      h.step (h.sound.unpin number) fun x hx => by rwa [GuardedCollector.entries_unpin] at hx
    exact hfirst.trans (ih _ hfirst.inOrder)
  | retire value next ih =>
    obtain ⟨g, hist, own⟩ := u
    have hfirst := h.retireNext value
    exact hfirst.trans (ih _ hfirst.inOrder)
  | tryAdvance next ih =>
    obtain ⟨g, hist, own⟩ := u
    have hfirst : Continues (g, hist, own) (g.tryAdvance, hist, own) :=
      h.step h.sound.tryAdvance fun _ hx => hx
    exact hfirst.trans (ih _ _ hfirst.inOrder)
  | reclaim release next ihrelease ihnext =>
    obtain ⟨g, hist, own⟩ := u
    obtain ⟨htaken, hdue⟩ := h.takeExpired
    -- What is done with each value is noted, and is a routine of its own.
    let handle (v : Ticketed α) : StateM (Usage α σ) (Ticketed α × Unit) := do
      return (v, ← do modify (noteReleased v); (release v.value).run)
    have hhandle : ∀ v u, InOrder u → Due v u → Continues u (handle v u).2 := by
      intro v u hu hv
      have hfirst := InOrder.noteReleased hu hv
      exact hfirst.trans (ihrelease v.value _ hfirst.inOrder)
    have hpass := continues_mapM hhandle g.takeExpired.1 htaken.inOrder hdue
    have hbefore := htaken.trans hpass
    exact hbefore.trans (ihnext _ _ hbefore.inOrder)

/-- **Nothing is handed over under a guard that could have seen it.** What a
    routine is handed was retired before, in one retirement; since then two epochs
    have passed, every guard that is left is of a later epoch, and the guards that
    there were when it was retired have been given back. -/
theorem released_unseen (routine : Routine α σ) (own : σ) {v : Ticketed α}
    {g : GuardedCollector (Ticketed α)} (h : .released v g ∈ routine.history own) :
    ∃ g₀, .retired v g₀ ∈ routine.history own ∧
      (∀ w g₁, .retired w g₁ ∈ routine.history own → w.ticket = v.ticket → w = v ∧ g₁ = g₀) ∧
      g₀.Unseen g := by
  have hinOrder := (continues_run routine _ (inOrder_new own)).inOrder
  obtain ⟨g₀, hretired, hunseen⟩ := hinOrder.handed v g h
  refine ⟨g₀, hretired, fun w g₁ hother hticket => ?_, hunseen⟩
  have hsame : Event.retired w g₁ = .retired v g₀ :=
    eq_of_ticket? hinOrder.distinct hother hretired (congrArg some hticket) rfl
  cases hsame
  exact ⟨rfl, rfl⟩

/-- A routine that reclaims while it holds a guard. The callback for the first
    value gives the guard back and retires a value, and a pass of its own hands
    that value over before the outer pass has come to its second value. -/
def nestedReclaims : Routine Nat Unit :=
  .pin fun reader =>
  .retire 7 <|
  .retire 8 <|
  .unpin reader <|
  .tryAdvance fun _ =>
  .pin fun younger =>
  .reclaim
    (fun value =>
      if value = 7 then
        .retire 9 <|
        .unpin younger <|
        .tryAdvance fun _ =>
        .reclaim (fun _ => .pin fun _ => .stop) fun _ => .stop
      else .stop)
    fun _ => .stop

/-- The outer pass hands its second value over under a guard that was taken in
    the callback for the first one. -/
theorem released_unseen_nested :
    ∃ g, .released ⟨1, 8⟩ g ∈ nestedReclaims.history () ∧ g.guard? 2 = some 7 ∧
      ∃ g₀, .retired ⟨1, 8⟩ g₀ ∈ nestedReclaims.history () ∧
        (∀ w g₁, .retired w g₁ ∈ nestedReclaims.history () → w.ticket = 1 →
          w = ⟨1, 8⟩ ∧ g₁ = g₀) ∧
        g₀.Unseen g :=
  ⟨_, List.mem_of_getElem? (i := 0) rfl, rfl,
    released_unseen nestedReclaims () (List.mem_of_getElem? (i := 0) rfl)⟩

end Routine

end TransactionalMemory
