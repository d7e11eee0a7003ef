import Mathlib.Data.List.Perm.Basic
import Mathlib.Logic.Function.Iterate
import TransactionalMemory.Proofs.Reclaim.Routines

/-! # Where retired values are

    A value that has been retired is in one of three places: it waits in the
    queue, it is in the hands of a pass of reclamation that has taken it out and
    not yet come to it, or it has been handed over. Passes may be nested, because
    a callback may reclaim as well, so there are as many hands as passes.

    To speak of every moment of a run, also of those inside a callback, a routine
    is done here in single steps, on a stack of the passes in progress. Step by
    step it does what `Routine.run` does at once. Every step moves values from
    one place to the next and loses none, which keeps the account of all places:
    nothing is lost, nothing is there twice, and everything goes in the order in
    which it was retired. -/

namespace TransactionalMemory.Routine

variable {α σ : Type}

/-! ## Moments -/

/-- The values that have been retired, the latest one first. -/
def History.retired (hist : History α) : List (Ticketed α) :=
  hist.filterMap fun
    | .retired v _ => some v
    | .released _ _ => none

/-- The values that have been handed over, the latest one first. -/
def History.released (hist : History α) : List (Ticketed α) :=
  hist.filterMap fun
    | .retired _ _ => none
    | .released v _ => some v

/-- A pass of reclamation in progress. -/
structure Passing (α σ : Type) where
  /-- What is done with each value. -/
  release : α → Routine α σ
  /-- What is done after the pass. -/
  next : (count : Nat) → Routine α σ
  /-- How many values the pass has taken out of the queue. -/
  count : Nat
  /-- The values handed over so far, the first one first. -/
  handed : List (Ticketed α)
  /-- The values still in hand, the next one first. -/
  inHand : List (Ticketed α)

/-- A pass of reclamation that has ended. -/
structure Passed (α : Type) where
  /-- The values that it handed over, the first one first. -/
  handed : List (Ticketed α)
  /-- The number that it returned. -/
  returned : Nat

structure Moment (α σ : Type) where
  /-- The collector in use. -/
  usage : Usage α σ
  /-- What is to be done next. -/
  now : Routine α σ
  /-- The passes in progress, the innermost one first. -/
  passes : List (Passing α σ) := []
  /-- The passes that have ended, the latest one first. -/
  ended : List (Passed α) := []

namespace Moment

def collector (m : Moment α σ) : GuardedCollector (Ticketed α) := m.usage.1

def hist (m : Moment α σ) : History α := m.usage.2.1

/-- The values that wait in the queue, the oldest one first. They are dropped with
    the collector, in this order. -/
def queued (m : Moment α σ) : List (Ticketed α) := m.collector.collector.waiting

/-- The values in the hands of passes. -/
def inHand (m : Moment α σ) : List (Ticketed α) := m.passes.flatMap (·.inHand)

/-- One step: the next thing that the routine does. When there is nothing more to
    do, the innermost pass hands over its next value, or ends. -/
def step (m : Moment α σ) : Moment α σ :=
  let (g, hist, own) := m.usage
  match m.now with
  | .stop =>
    match m.passes with
    | [] => m
    | p :: outer =>
      match p.inHand with
      | [] =>
        { m with
          now := p.next p.count, passes := outer, ended := ⟨p.handed, p.count⟩ :: m.ended }
      | v :: rest =>
        { m with
          usage := noteReleased v m.usage, now := p.release v.value
          passes := { p with handed := p.handed ++ [v], inHand := rest } :: outer }
  | .change f next => { m with usage := (g, hist, f own), now := next }
  | .choose next => { m with now := next g.collector.epoch g.collector.pending own }
  | .pin next => { m with usage := (g.pin.2, hist, own), now := next g.pin.1 }
  | .unpin number next => { m with usage := (g.unpin number, hist, own), now := next }
  | .retire value next => { m with usage := retireNext value m.usage, now := next }
  | .tryAdvance next =>
    { m with usage := (g.tryAdvance, hist, own), now := next g.tryAdvance.collector.epoch }
  | .reclaim release next =>
    { m with
      usage := (g.takeExpired.2, hist, own), now := .stop
      passes := ⟨release, next, g.takeExpired.1.length, [], g.takeExpired.1⟩ :: m.passes }

def start (routine : Routine α σ) (own : σ) : Moment α σ where
  usage := ({}, [], own)
  now := routine

end Moment

/-! ## Steps are what a run does -/

/-- The one moment leads to the other, in some number of steps. -/
def Leads (m m' : Moment α σ) : Prop := ∃ n, Moment.step^[n] m = m'

namespace Leads

variable {m m' m'' : Moment α σ}

theorem refl (m : Moment α σ) : Leads m m := ⟨0, rfl⟩

theorem trans (h : Leads m m') (h' : Leads m' m'') : Leads m m'' := by
  obtain ⟨n, rfl⟩ := h
  obtain ⟨k, rfl⟩ := h'
  exact ⟨k + n, Function.iterate_add_apply ..⟩

/-- The first step, and then the others. -/
theorem next (h : Leads m.step m') : Leads m m' := by
  obtain ⟨n, rfl⟩ := h
  exact ⟨n + 1, rfl⟩

end Leads

/-- A pass hands over the values that it has in hand, one after the other, if what
    is done with each of them comes to its end. -/
theorem leads_pass {β : Type} {handle : Ticketed α → StateM (Usage α σ) β}
    {release : α → Routine α σ} (next : Nat → Routine α σ) (count : Nat)
    (outer : List (Passing α σ))
    (hhandle : ∀ v u passes ended, ∃ ended', Leads
      ⟨noteReleased v u, release v.value, passes, ended⟩ ⟨(handle v u).2, .stop, passes, ended'⟩)
    (vs handed : List (Ticketed α)) (u : Usage α σ) (ended : List (Passed α)) :
    ∃ ended', Leads ⟨u, .stop, ⟨release, next, count, handed, vs⟩ :: outer, ended⟩
      ⟨(vs.mapM handle u).2, .stop, ⟨release, next, count, handed ++ vs, []⟩ :: outer, ended'⟩ := by
  induction vs generalizing handed u ended with
  | nil =>
    rw [List.append_nil]
    exact ⟨ended, .refl _⟩
  | cons v rest ih =>
    -- First the steps of the callback for `v`, with the rest still in hand.
    obtain ⟨ended₁, hfirst⟩ := hhandle v u
      (⟨release, next, count, handed ++ [v], rest⟩ :: outer) ended
    obtain ⟨ended₂, hrest⟩ := ih (handed ++ [v]) (handle v u).2 ended₁
    rw [List.append_assoc] at hrest
    rw [List.mapM_cons]
    exact ⟨ended₂, .next (hfirst.trans hrest)⟩

/-- A pass returns one result for each value that it has taken out. -/
theorem fst_mapM {τ β : Type} (release : Ticketed α → StateM τ β) (vs : List (Ticketed α)) (x : τ) :
    ((vs.mapM (fun v => do return (v, ← release v))) x).1.map Prod.fst = vs := by
  induction vs generalizing x with
  | nil => rfl
  | cons v rest ih =>
    rw [List.mapM_cons]
    exact congrArg (v :: ·) (ih (release v x).2)

/-- The values that a pass hands over are the ones that it takes out of the queue. -/
theorem fst_reclaim {τ β : Type}
    (release : Ticketed α → StateM (GuardedCollector (Ticketed α) × τ) β)
    (g : GuardedCollector (Ticketed α)) (x : τ) :
    ((GuardedCollector.reclaim release) (g, x)).1.map Prod.fst = g.takeExpired.1 :=
  fst_mapM release g.takeExpired.1 (g.takeExpired.2, x)

/-- Whatever passes are in progress, the steps of a routine lead to where its run
    ends. -/
theorem leads_run (routine : Routine α σ) (u : Usage α σ) (passes : List (Passing α σ))
    (ended : List (Passed α)) :
    ∃ ended', Leads ⟨u, routine, passes, ended⟩ ⟨(routine.run u).2, .stop, passes, ended'⟩ := by
  induction routine generalizing u passes ended with
  | stop => exact ⟨ended, .refl _⟩
  | change f next ih =>
    obtain ⟨ended', hrest⟩ := ih (u.1, u.2.1, f u.2.2) passes ended
    exact ⟨ended', .next hrest⟩
  | choose next ih =>
    obtain ⟨ended', hrest⟩ := ih u.1.collector.epoch u.1.collector.pending u.2.2 u passes ended
    exact ⟨ended', .next hrest⟩
  | pin next ih =>
    obtain ⟨ended', hrest⟩ := ih u.1.pin.1 (u.1.pin.2, u.2) passes ended
    exact ⟨ended', .next hrest⟩
  | unpin number next ih =>
    obtain ⟨ended', hrest⟩ := ih (u.1.unpin number, u.2) passes ended
    exact ⟨ended', .next hrest⟩
  | retire value next ih =>
    obtain ⟨ended', hrest⟩ := ih (retireNext value u) passes ended
    exact ⟨ended', .next hrest⟩
  | tryAdvance next ih =>
    obtain ⟨ended', hrest⟩ := ih u.1.tryAdvance.collector.epoch (u.1.tryAdvance, u.2) passes ended
    exact ⟨ended', .next hrest⟩
  | reclaim release next ihrelease ihnext =>
    -- The callback is run for each value with the pass, one value shorter, on the stack.
    let handle (v : Ticketed α) : StateM (Usage α σ) (Ticketed α × Unit) := do
      return (v, ← do modify (noteReleased v); (release v.value).run)
    have hhandle : ∀ v u passes ended, ∃ ended', Leads
        ⟨noteReleased v u, release v.value, passes, ended⟩
        ⟨(handle v u).2, .stop, passes, ended'⟩ :=
      fun v u passes ended => ihrelease v.value (noteReleased v u) passes ended
    -- What the passes in progress have in hand does not matter to the callback.
    obtain ⟨ended₁, hpass⟩ := leads_pass next u.1.takeExpired.1.length passes hhandle
      u.1.takeExpired.1 [] (u.1.takeExpired.2, u.2) ended
    -- The run goes on with the number of values, as the steps do.
    let after := u.1.takeExpired.1.mapM handle (u.1.takeExpired.2, u.2)
    have hlength : after.1.length = u.1.takeExpired.1.length := by
      rw [← List.length_map Prod.fst]
      exact congrArg List.length (fst_mapM _ _ _)
    have hrun : ((Routine.reclaim release next).run u).2 = ((next after.1.length).run after.2).2 :=
      rfl
    obtain ⟨ended₂, hrest⟩ := ihnext u.1.takeExpired.1.length after.2 passes
      (⟨u.1.takeExpired.1, u.1.takeExpired.1.length⟩ :: ended₁)
    rw [hrun, hlength]
    exact ⟨ended₂, .next (hpass.trans (.next hrest))⟩

/-! ## The account of all places -/

/-- Values in the order of their retirement, each of them once. -/
def InRetirementOrder (vs : List (Ticketed α)) : Prop :=
  vs.Pairwise fun v w => v.ticket < w.ticket

/-- A pass takes its values in the order of retirement, and knows their number. -/
structure Passing.InOrder (p : Passing α σ) : Prop where
  order : InRetirementOrder (p.handed ++ p.inHand)
  count : p.count = p.handed.length + p.inHand.length

/-- A pass has handed its values over in the order of retirement, and returned
    their number. -/
structure Passed.InOrder (p : Passed α) : Prop where
  order : InRetirementOrder p.handed
  returned : p.returned = p.handed.length

/-- Every ticket is of a retired value. -/
theorem History.tickets_eq (hist : History α) : hist.tickets = hist.retired.map (·.ticket) := by
  induction hist with
  | nil => rfl
  | cons event rest ih =>
    cases event with
    | retired v g => exact congrArg (v.ticket :: ·) ih
    | released v g => exact ih

namespace Moment

/-- The values handed over by the passes in progress and by those that have ended. -/
def handed (m : Moment α σ) : List (Ticketed α) :=
  m.passes.flatMap (·.handed) ++ m.ended.flatMap (·.handed)

/-- What every step keeps: the account of where the retired values are. -/
structure Kept (m : Moment α σ) : Prop where
  sound : m.collector.Sound
  order : InRetirementOrder m.hist.retired.reverse
  fresh : ∀ v ∈ m.hist.retired, v.ticket < m.hist.retired.length
  placed : (m.queued ++ (m.inHand ++ m.hist.released)).Perm m.hist.retired
  queue : InRetirementOrder m.queued
  passes : ∀ p ∈ m.passes, p.InOrder
  ended : ∀ p ∈ m.ended, p.InOrder
  handed : m.hist.released.Perm m.handed

theorem kept_start (routine : Routine α σ) (own : σ) : Kept (start routine own) where
  sound := GuardedCollector.sound_new
  order := .nil
  fresh := fun _ h => nomatch h
  placed := .refl _
  queue := .nil
  passes := fun _ h => nomatch h
  ended := fun _ h => nomatch h
  handed := .refl _

namespace Kept

variable {g g' : GuardedCollector (Ticketed α)} {hist : History α} {own own' : σ}
  {now now' : Routine α σ} {passes : List (Passing α σ)} {ended : List (Passed α)}

/-- A step that moves no value. -/
theorem stay (h : Kept ⟨(g, hist, own), now, passes, ended⟩) (hsound : g'.Sound)
    (hqueue : g'.collector.waiting = g.collector.waiting) :
    Kept ⟨(g', hist, own'), now', passes, ended⟩ where
  sound := hsound
  order := h.order
  fresh := h.fresh
  placed := by
    have := h.placed
    simp only [queued, collector] at this ⊢
    rwa [hqueue]
  queue := by
    have := h.queue
    simp only [queued, collector] at this ⊢
    rwa [hqueue]
  passes := h.passes
  ended := h.ended
  handed := h.handed

/-- A value that is retired goes to the end of the queue, under the next ticket. -/
theorem retire (h : Kept ⟨(g, hist, own), now, passes, ended⟩) (value : α) :
    Kept ⟨retireNext value (g, hist, own), now', passes, ended⟩ := by
  let v : Ticketed α := ⟨hist.tickets.length, value⟩
  -- Tickets are given out in order, so the new one is greater than all before.
  have hticket : v.ticket = hist.retired.length := by
    rw [← List.length_map (·.ticket), ← hist.tickets_eq]
  have hyoungest : ∀ w ∈ hist.retired, w.ticket < v.ticket := fun w hw =>
    hticket ▸ h.fresh w hw
  have hqueued : (g.retire v).collector.waiting = g.collector.waiting ++ [v] := by
    simp [GuardedCollector.retire, Collector.waiting, Collector.retire, RetirementQueue.push,
      Retired.inEpoch]
  have hretired : History.retired (.retired v g :: hist) = v :: hist.retired := rfl
  constructor
  case sound => exact (h.sound.retire v).sound
  case order =>
    show InRetirementOrder (History.retired (.retired v g :: hist)).reverse
    rw [hretired, List.reverse_cons, InRetirementOrder, List.pairwise_append]
    refine ⟨h.order, List.pairwise_singleton .., fun w hw x hx => ?_⟩
    rw [List.mem_singleton.1 hx]
    exact hyoungest w (List.mem_reverse.1 hw)
  case fresh =>
    intro w hw
    show w.ticket < hist.retired.length + 1
    rcases List.mem_cons.1 hw with rfl | hw
    · exact Nat.lt_succ_of_le (Nat.le_of_eq hticket)
    · exact Nat.lt_succ_of_lt (h.fresh w hw)
  case placed =>
    show ((g.retire v).collector.waiting ++ _).Perm (v :: hist.retired)
    rw [hqueued, List.append_assoc]
    exact List.perm_middle.trans (.cons v h.placed)
  case queue =>
    show InRetirementOrder (g.retire v).collector.waiting
    rw [hqueued, InRetirementOrder, List.pairwise_append]
    refine ⟨h.queue, List.pairwise_singleton .., fun w hw x hx => ?_⟩
    rw [List.mem_singleton.1 hx]
    exact hyoungest w (h.placed.subset (List.mem_append_left _ hw))
  case passes => exact h.passes
  case ended => exact h.ended
  case handed => exact h.handed

/-- A pass begins: the front of the queue goes into its hands. -/
theorem take (h : Kept ⟨(g, hist, own), now, passes, ended⟩) (release : α → Routine α σ)
    (next : Nat → Routine α σ) :
    Kept ⟨(g.takeExpired.2, hist, own), now',
      ⟨release, next, g.takeExpired.1.length, [], g.takeExpired.1⟩ :: passes, ended⟩ := by
  -- The queue is cut in two, and both parts are still in order.
  have hcut : g.collector.waiting = g.takeExpired.1 ++ g.takeExpired.2.collector.waiting :=
    Collector.waiting_takeExpired g.collector
  have hqueue : InRetirementOrder (g.takeExpired.1 ++ g.takeExpired.2.collector.waiting) :=
    hcut ▸ h.queue
  obtain ⟨htaken, hleft, -⟩ := List.pairwise_append.1 hqueue
  constructor
  case sound => exact h.sound.takeExpired.sound
  case order => exact h.order
  case fresh => exact h.fresh
  case placed =>
    have hplaced := h.placed
    simp only [queued, inHand, collector, Moment.hist, List.flatMap_cons, hcut,
      List.append_assoc] at hplaced ⊢
    exact (List.perm_append_comm_assoc ..).trans hplaced
  case queue => exact hleft
  case passes =>
    rintro p (_ | ⟨_, hp⟩)
    · exact ⟨htaken, (Nat.zero_add _).symm⟩
    · exact h.passes p hp
  case ended => exact h.ended
  case handed => exact h.handed

/-- A value goes from the hands of the innermost pass to the routine. -/
theorem handOver {p : Passing α σ} {v : Ticketed α} {rest : List (Ticketed α)}
    (h : Kept ⟨(g, hist, own), now, p :: passes, ended⟩) (hnext : p.inHand = v :: rest) :
    Kept ⟨noteReleased v (g, hist, own), now',
      { p with handed := p.handed ++ [v], inHand := rest } :: passes, ended⟩ := by
  have hreleased : History.released (.released v g :: hist) = v :: hist.released := rfl
  constructor
  case sound => exact h.sound
  case order => exact h.order
  case fresh => exact h.fresh
  case placed =>
    refine .trans ?_ h.placed
    refine List.Perm.append_left _ ?_
    simp only [inHand, List.flatMap_cons, hnext, List.cons_append]
    show (rest ++ passes.flatMap (·.inHand) ++ v :: hist.released).Perm _
    exact List.perm_middle
  case queue => exact h.queue
  case passes =>
    rintro q (_ | ⟨_, hq⟩)
    · -- The value moves from the front of one list to the end of the other.
      obtain ⟨horder, hcount⟩ := h.passes p (List.mem_cons_self ..)
      rw [hnext] at horder hcount
      refine ⟨?_, ?_⟩
      · simpa using horder
      · simp only [List.length_append, List.length_cons, List.length_nil] at hcount ⊢
        omega
    · exact h.passes q (List.mem_cons_of_mem _ hq)
  case ended => exact h.ended
  case handed =>
    show (v :: hist.released).Perm _
    refine (List.Perm.cons v h.handed).trans ?_
    simp only [Moment.handed, List.flatMap_cons, List.append_assoc, List.cons_append,
      List.nil_append]
    exact List.perm_middle.symm

/-- The innermost pass ends. -/
theorem finish {p : Passing α σ} (h : Kept ⟨(g, hist, own), now, p :: passes, ended⟩)
    (hdone : p.inHand = []) :
    Kept ⟨(g, hist, own), now', passes, ⟨p.handed, p.count⟩ :: ended⟩ := by
  obtain ⟨horder, hcount⟩ := h.passes p (List.mem_cons_self ..)
  rw [hdone] at horder hcount
  constructor
  case sound => exact h.sound
  case order => exact h.order
  case fresh => exact h.fresh
  case placed =>
    have hplaced := h.placed
    simp only [inHand, List.flatMap_cons, hdone, List.nil_append] at hplaced
    exact hplaced
  case queue => exact h.queue
  case passes => exact fun q hq => h.passes q (List.mem_cons_of_mem _ hq)
  case ended =>
    rintro q (_ | ⟨_, hq⟩)
    · exact ⟨by simpa using horder, hcount⟩
    · exact h.ended q hq
  case handed =>
    refine h.handed.trans ?_
    simp only [Moment.handed, List.flatMap_cons, List.append_assoc]
    exact List.perm_append_comm_assoc ..

/-- A step moves values from one place to the next, and loses none. -/
theorem step {m : Moment α σ} (h : m.Kept) : m.step.Kept := by
  obtain ⟨⟨g, hist, own⟩, now, passes, ended⟩ := m
  cases now with
  | stop =>
    cases passes with
    | nil => exact h
    | cons p outer =>
      obtain ⟨release, next, count, handed, inHand⟩ := p
      cases inHand with
      | nil => exact h.finish rfl
      | cons v rest => exact h.handOver rfl
  | change f next => exact h.stay h.sound rfl
  | choose next => exact h.stay h.sound rfl
  | pin next => exact h.stay h.sound.pin.sound rfl
  | unpin number next =>
    exact h.stay (h.sound.unpin number).sound
      (congrArg (List.map Retired.value) (GuardedCollector.entries_unpin g number))
  | retire value next => exact h.retire value
  | tryAdvance next => exact h.stay h.sound.tryAdvance.sound rfl
  | reclaim release next => exact h.take release next

theorem iterate {m : Moment α σ} (h : m.Kept) (n : Nat) : (Moment.step^[n] m).Kept := by
  induction n with
  | zero => exact h
  | succ n ih =>
    rw [Function.iterate_succ_apply']
    exact ih.step

end Kept

end Moment

end TransactionalMemory.Routine

namespace TransactionalMemory.GuardedCollector

variable {α : Type} {g : GuardedCollector α}

/-! ## When nobody looks -/

/-- No guard is left. -/
def Idle (g : GuardedCollector α) : Prop := ∀ n, g.guard? n = none

theorem Idle.guardsIn_eq_zero (hidle : g.Idle) (e : Nat) : g.guardsIn e = 0 := by
  by_contra hne
  obtain ⟨n, hn, hget⟩ := List.mem_iff_getElem.1 (List.count_pos_iff.1 (Nat.pos_of_ne_zero hne))
  have hguard : g.guard? n = some e := by
    rw [guard?_eq_some_iff, Array.getElem?_eq_some_iff]
    exact ⟨by simpa using hn, hget⟩
  rw [hidle n] at hguard
  cases hguard

/-- Without guards every attempt to advance succeeds. -/
theorem Idle.epoch_tryAdvance (hidle : g.Idle) (h : g.Sound) :
    g.tryAdvance.collector.epoch = g.collector.epoch + 1 := by
  -- The tally of the previous epoch is that of its guards.
  have hnobody : g.collector.clock.pinnedIn (g.collector.clock.epoch - 1) = 0 := by
    rw [h.tallies.previous]
    exact hidle.guardsIn_eq_zero _
  show g.collector.clock.tryAdvance.epoch = _
  rw [EpochClock.tryAdvance, if_pos hnobody]
  rfl

/-- Two epochs on, everything in the queue has expired. -/
theorem Idle.takeExpired (hidle : g.Idle) (h : g.Sound) :
    g.tryAdvance.tryAdvance.takeExpired.1 = g.collector.waiting := by
  have hfirst := h.tryAdvance
  have hsecond := hfirst.sound.tryAdvance
  have hpass := hsecond.sound.takeExpired.later.epoch
  have hepoch : g.tryAdvance.tryAdvance.collector.epoch = g.collector.epoch + 2 := by
    rw [Idle.epoch_tryAdvance (g := g.tryAdvance) hidle hfirst.sound, hidle.epoch_tryAdvance h]
  have hnone : g.tryAdvance.tryAdvance.takeExpired.2.collector.entries = [] := by
    -- Whatever was left would be as old as the queue and too young to expire.
    refine List.eq_nil_iff_forall_not_mem.2 fun x hx => ?_
    obtain ⟨_, -, hsplit, -⟩ := hsecond.sound.inOrder.takeExpired
    have hold : x ∈ g.collector.entries := by
      show x ∈ g.tryAdvance.tryAdvance.collector.entries
      rw [hsplit]
      exact List.mem_append_right _ hx
    have hpast := h.inOrder.past x hold
    have hyoung : g.tryAdvance.tryAdvance.takeExpired.2.collector.epoch < x.epoch + graceEpochs :=
      hsecond.sound.inOrder.lt_of_mem_takeExpired hx
    simp only [graceEpochs] at hyoung
    omega
  have hcut : g.collector.waiting = g.tryAdvance.tryAdvance.takeExpired.1
      ++ g.tryAdvance.tryAdvance.takeExpired.2.collector.entries.map (·.value) :=
    Collector.waiting_takeExpired g.tryAdvance.tryAdvance.collector
  rw [hcut, hnone, List.map_nil, List.append_nil]

end TransactionalMemory.GuardedCollector

namespace TransactionalMemory.Routine

variable {α σ : Type}

/-! ## Every moment of every run -/

/-- Where the retired values are at a moment. -/
structure Moment.Accounted (m : Moment α σ) : Prop where
  /-- Every retired value is in one of the three places. -/
  placed : (m.queued ++ (m.inHand ++ m.hist.released)).Perm m.hist.retired
  /-- It is there once, and in no other place. -/
  once : ((m.queued ++ (m.inHand ++ m.hist.released)).map (·.ticket)).Nodup
  /-- The collector knows how many values wait. -/
  pending : m.collector.collector.pending = m.queued.length
  /-- They wait, and are dropped with the collector, in the order of retirement. -/
  queue : InRetirementOrder m.queued
  /-- What has been handed over was handed over by the passes. -/
  handed : m.hist.released.Perm m.handed
  /-- The passes in progress hand over in the order of retirement. -/
  passes : ∀ p ∈ m.passes, p.InOrder
  /-- So did the passes that have ended, and each returned how many values it handed over. -/
  ended : ∀ p ∈ m.ended, p.InOrder
  /-- If no guard is left, a pass after two attempts to advance would hand over
      all that waits, whatever it does with the values. -/
  idle : m.collector.Idle → ∀ (τ β : Type)
    (release : Ticketed α → StateM (GuardedCollector (Ticketed α) × τ) β) (own : τ),
    (GuardedCollector.reclaim release (m.collector.tryAdvance.tryAdvance, own)).1.map Prod.fst
      = m.queued

theorem Moment.Kept.accounted {m : Moment α σ} (h : m.Kept) : m.Accounted where
  placed := h.placed
  once := by
    -- No two retired values have the same ticket.
    have hretired : (m.hist.retired.map (·.ticket)).Nodup :=
      List.pairwise_map.2 ((List.pairwise_reverse.1 h.order).imp Nat.ne_of_gt)
    exact (h.placed.map _).nodup_iff.2 hretired
  pending := by
    rw [h.sound.inOrder.counted]
    exact (List.length_map ..).symm
  queue := h.queue
  handed := h.handed
  passes := h.passes
  ended := h.ended
  idle := fun hidle _ _ release own => (fst_reclaim release _ own).trans (hidle.takeExpired h.sound)

/-- **Nothing is lost and nothing is there twice.** At every moment of every run,
    also inside the callbacks of nested passes, all values that have been retired
    are accounted for; and the steps lead to where the run ends, with no pass in
    progress. -/
theorem every_moment_accounted (routine : Routine α σ) (own : σ) :
    (∀ n, (Moment.step^[n] (.start routine own)).Accounted) ∧
      ∃ n ended, Moment.step^[n] (.start routine own)
        = ⟨(routine.run ({}, [], own)).2, .stop, [], ended⟩ := by
  refine ⟨fun n => ((Moment.kept_start routine own).iterate n).accounted, ?_⟩
  obtain ⟨ended, n, hn⟩ := leads_run routine ({}, [], own) [] []
  exact ⟨n, ended, hn⟩

/-- In the callback for the first value, the inner pass has taken the value that
    was retired there, while the outer pass still has its second value in hand. -/
example : ((Moment.step^[12] (.start nestedReclaims ())).passes.map
    fun p => (p.handed.map (·.value), p.inHand.map (·.value))) = [([], [9]), ([7], [8])] := rfl

end TransactionalMemory.Routine
