import TransactionalMemory.Admission.Queue
import TransactionalMemory.Proofs.Session.Books

/-! # Nobody waits for ever

    Under exclusive admission a transaction may have to wait, and those who wait
    are let in by those who leave. So somebody has to be inside for as long as
    anybody waits.

    The gate knows only a number of readers and whether there is a writer. What
    ties it to the transactions is that each of them passes it once on its way in
    and once on its way out: then the numbers of the gate are the numbers of open
    transactions of either kind. Whoever is first in the queue and is not
    admitted then waits for somebody who is open.

    Abandoning everybody who is open therefore shortens the queue, and as many
    rounds as there are transactions waiting let everybody in. -/

namespace TransactionalMemory

/-! ## Passing the gate -/

/-- What the gate sees of a transaction. -/
inductive Passage where
  | entered (h : Handle) (readOnly : Bool)
  | left (h : Handle) (readOnly : Bool)
  deriving DecidableEq

def Passage.handle : Passage → Handle
  | .entered h _ => h
  | .left h _ => h

def Gate.pass : Passage → Gate → Gate
  | .entered _ readOnly, g => g.enter readOnly
  | .left _ readOnly, g => g.leave readOnly

theorem Gate.admits_optimistic {g : Gate} (h : g.policy = .optimistic) (readOnly : Bool) :
    g.admits readOnly = true := by
  simp [admits, h]

theorem Gate.policy_foldr (g : Gate) (log : List Passage) :
    (log.foldr Gate.pass g).policy = g.policy := by
  induction log with
  | nil => rfl
  | cons passage rest ih => cases passage <;> simpa [Gate.pass] using ih

/-- The passages of transaction `h` in a log, the latest one first. -/
def passagesOf (h : Handle) (log : List Passage) : List Passage :=
  log.filter fun passage => passage.handle = h

/-- The passages that a transaction should have, by its kind: none before it
    begins, one while it is open, and one of either sort once it has ended. -/
inductive Visit (h : Handle) : Option (Option Bool) → List Passage → Prop where
  | awaited : Visit h none []
  | inside (readOnly : Bool) : Visit h (some (some readOnly)) [.entered h readOnly]
  | over (readOnly : Bool) : Visit h (some none) [.left h readOnly, .entered h readOnly]

/-- After a passage of one transaction, everybody has the passages due to them if
    that one has, and the others are of the kind they were of. -/
theorem visits_cons {kinds kinds' : List (Option Bool)} {log : List Passage} {passage : Passage}
    (hvisits : ∀ h : Handle, Visit h kinds[h]? (passagesOf h log))
    (hself : Visit passage.handle kinds'[passage.handle]?
      (passage :: passagesOf passage.handle log))
    (hothers : ∀ h : Handle, passage.handle ≠ h → kinds'[h]? = kinds[h]?) (h : Handle) :
    Visit h kinds'[h]? (passagesOf h (passage :: log)) := by
  by_cases hh : passage.handle = h
  · subst hh
    simpa [passagesOf] using hself
  · simpa [passagesOf, hh, hothers h hh] using hvisits h

/-- Whether an operation begins a transaction. -/
def Operation.isBegin : Operation → Bool
  | .begin _ => true
  | _ => false

/-! ## The gate counts who is open -/

namespace Session

variable {s s' : Session} {h k : Handle} {t u : Transaction} {readOnly : Bool}
  {ends : List (Handle × Bool)}

/-- Under exclusive admission the gate agrees with the kinds of the open
    transactions, and readers are inside only while no writer is. -/
structure Guarded (s : Session) : Prop where
  policy : s.region.gate.policy = .exclusive
  readers : s.region.gate.readers = s.kinds.count (some true)
  writers : s.kinds.count (some false) = if s.region.gate.writer then 1 else 0
  apart : s.region.gate.writer = true → s.region.gate.readers = 0

namespace Guarded

theorem congr (hg : s.Guarded) (hkinds : s'.kinds = s.kinds)
    (hgate : s'.region.gate = s.region.gate) : s'.Guarded := by
  constructor
  · simpa [hgate] using hg.policy
  · simpa [hgate, hkinds] using hg.readers
  · simpa [hgate, hkinds] using hg.writers
  · simpa [hgate] using hg.apart

/-- Where a writer is open, the gate knows it. -/
theorem writer_of_kinds (hg : s.Guarded) (hkind : s.kinds[h]? = some (some false)) :
    s.region.gate.writer = true := by
  have hpos : 0 < s.kinds.count (some false) := List.count_pos_iff.2 (List.mem_of_getElem? hkind)
  cases hwriter : s.region.gate.writer with
  | true => rfl
  | false => simp [hg.writers, hwriter] at hpos

/-- Whatever is entered into the books keeps the gate in agreement. -/
theorem entry (hg : s.Guarded) (e : Entry s s' ends) : s'.Guarded := by
  obtain ⟨hpolicy, hreaders, hwriters, hapart⟩ := id hg
  cases e with
  | unbooked same => exact hg.congr same.kinds same.books.gate
  | began readOnly admits kinds gate commits aborts =>
    -- Whoever is admitted finds no writer inside, and a writer finds nobody.
    rw [Gate.enter_exclusive hpolicy] at gate
    obtain ⟨hnobody, halone⟩ := (Gate.admits_exclusive hpolicy readOnly).1 admits
    cases readOnly with
    | true =>
      constructor
      · simpa [gate] using hpolicy
      · simpa [gate, kinds] using hreaders
      · simpa [gate, kinds] using hwriters
      · simp [gate, hnobody]
    | false =>
      rw [halone rfl] at hreaders
      rw [hnobody] at hwriters
      constructor
      · simpa [gate] using hpolicy
      · simpa [gate, kinds, halone rfl] using hreaders
      · simpa [gate, kinds] using hwriters
      · simp [gate, halone rfl]
  | @ended h readOnly committed isOpen kinds ids gate commits aborts =>
    rw [Gate.leave_exclusive hpolicy] at gate
    obtain ⟨hlt, hget⟩ := List.getElem?_eq_some_iff.1 isOpen
    -- There is one fewer of the kind that leaves.
    have hcount : ∀ kind : Bool, s'.kinds.count (some kind)
        = s.kinds.count (some kind) - if readOnly = kind then 1 else 0 := by
      intro kind
      rw [kinds, List.count_set hlt, hget]
      simp
    cases readOnly with
    | true =>
      constructor
      · simpa [gate] using hpolicy
      · simp [gate, hcount, hreaders]
      · simpa [gate, hcount] using hwriters
      · simpa [gate] using fun hwriter => by rw [hapart hwriter]
    | false =>
      -- The writer that leaves has been the only one.
      rw [hg.writer_of_kinds isOpen] at hwriters
      constructor
      · simpa [gate] using hpolicy
      · simpa [gate, hcount] using hreaders
      · simp [gate, hcount, hwriters]
      · simp [gate]

/-- Nobody is open beside a writer. -/
theorem alone (hg : s.Guarded) (ho : s.open? h = some t) (hrw : t.isReadOnly = false)
    (hu : s.open? k = some u) : k = h := by
  have hwriting : s.kinds[h]? = some (some false) := by rw [kinds_of_open ho, hrw]
  have hother := kinds_of_open hu
  have hwriter := hg.writer_of_kinds hwriting
  cases hro : u.isReadOnly with
  | true =>
    have hpos : 0 < s.kinds.count (some true) :=
      List.count_pos_iff.2 (List.mem_of_getElem? (hro ▸ hother))
    rw [← hg.readers, hg.apart hwriter] at hpos
    omega
  | false =>
    by_cases hk : k = h
    · exact hk
    · -- Without the first of the two there is still the other.
      obtain ⟨hlt, hget⟩ := List.getElem?_eq_some_iff.1 hwriting
      rw [hro, ← List.getElem?_set_ne (Ne.symm hk) (a := none)] at hother
      have hstill : 0 < (s.kinds.set h none).count (some false) :=
        List.count_pos_iff.2 (List.mem_of_getElem? hother)
      rw [List.count_set hlt, hget, hg.writers, hwriter] at hstill
      simp at hstill

/-- Whoever is not admitted is kept out by somebody who is open; a reader, by a
    writer. -/
theorem kept_out (hg : s.Guarded) (hnot : s.region.gate.admits readOnly = false) :
    ∃ h t, s.open? h = some t ∧ (readOnly = true → t.isReadOnly = false) := by
  have hopen : ∀ kind : Bool, 0 < s.kinds.count (some kind) →
      ∃ h t, s.open? h = some t ∧ t.isReadOnly = kind := by
    intro kind hpos
    obtain ⟨h, hh⟩ := List.mem_iff_getElem?.1 (List.count_pos_iff.1 hpos)
    exact ⟨h, open_of_kinds hh⟩
  -- The counts of the gate are those of the open transactions.
  by_cases hwriter : s.region.gate.writer = true
  · obtain ⟨h, t, ho, hrw⟩ := hopen false (by simp [hg.writers, hwriter])
    exact ⟨h, t, ho, fun _ => hrw⟩
  · have hreaders : readOnly = false ∧ s.region.gate.readers ≠ 0 := by
      have := mt (Gate.admits_exclusive hg.policy readOnly).2 (by simp [hnot])
      simpa [hwriter] using this
    obtain ⟨h, t, ho, -⟩ := hopen true (by rw [← hg.readers]; omega)
    exact ⟨h, t, ho, by simp [hreaders.1]⟩

end Guarded

/-- Others may have begun, and whoever had ended has ended for good. -/
structure Later (s s' : Session) : Prop where
  size : s.transactions.size ≤ s'.transactions.size
  ended : ∀ h : Handle, s.kinds[h]? = some none → s'.kinds[h]? = some none

theorem Later.refl (s : Session) : s.Later s := ⟨Nat.le_refl _, fun _ => id⟩

theorem Later.trans {s'' : Session} (h : s.Later s') (h' : s'.Later s'') : s.Later s'' :=
  ⟨Nat.le_trans h.size h'.size, fun k hk => h'.ended k (h.ended k hk)⟩

theorem later_enter (s : Session) (mode : Mode) : s.Later (s.enter mode).2 where
  size := by simp [enter]
  ended h hh := by
    rw [kinds_enter, List.getElem?_append_left (List.getElem?_eq_some_iff.1 hh).1]
    exact hh

theorem later_abandon (s : Session) (h : Handle) : s.Later (s.abandon h) := by
  cases ho : s.open? h with
  | none =>
    rw [abandon, ho]
    exact .refl s
  | some t =>
    rw [abandon, ho]
    show s.Later (s.put h none (t.abandon s.region))
    refine ⟨by simp [put], fun k hk => ?_⟩
    have hlt := (List.getElem?_eq_some_iff.1 hk).1
    by_cases hkh : h = k
    · simp [hkh, List.getElem?_set_self hlt]
    · simpa [List.getElem?_set_ne hkh] using hk

end Session

/-! ## Runs with a queue -/

namespace Lobby

variable {l l' : Lobby} {log : List Passage} {policy : Admission} {n : Nat}

/-- Does one operation. Those who are let in by it come with the lobby; a
    transaction that the region refuses does not arrive. -/
def step (l : Lobby) : Operation → List Admitted × Lobby
  | .begin readOnly =>
    match l.arrive readOnly with
    | .ok next => next
    | .error _ => ([], l)
  | .finish h => (l.finish h).2
  | .abandon h => l.abandon h
  | operation => ([], { l with session := (l.session.step operation).2 })

def run (l : Lobby) (operations : List Operation) : Lobby :=
  operations.foldl (fun l operation => (l.step operation).2) l

/-- Those who have been let in pass the gate in that order. -/
def entries (admitted : List Admitted) : List Passage :=
  (admitted.map fun a => .entered a.handle a.mode.isReadOnly).reverse

/-- A transaction that is open leaves the gate when it is ended or abandoned. -/
def exits (l : Lobby) : Operation → List Passage
  | .finish h | .abandon h => (l.session.open? h).toList.map fun t => .left h t.isReadOnly
  | _ => []

/-- The log of passages, after the operations are done one after the other. -/
def journal (l : Lobby) (log : List Passage) : List Operation → List Passage
  | [] => log
  | operation :: rest =>
    let (admitted, l') := l.step operation
    l'.journal (entries admitted ++ (l.exits operation ++ log)) rest

/-- Whether the operation begins a transaction, which the region does not refuse. -/
def accepts (l : Lobby) : Operation → Bool
  | .begin readOnly => (l.arrive readOnly).isOk
  | _ => false

/-- How many transactions the operations begin. -/
def begins (l : Lobby) : List Operation → Nat
  | [] => 0
  | operation :: rest => (if l.accepts operation then 1 else 0) + (l.step operation).2.begins rest

/-- The first in the queue is not admitted. -/
def Settled (l : Lobby) : Prop :=
  ∀ first ∈ l.queue.head?, l.session.region.gate.admits first.mode.isReadOnly = false

/-- The gate is what the passages in the log have made of it, and those who have
    arrived are inside, have ended, or wait in the order of their arrival. -/
structure Kept (policy : Admission) (l : Lobby) (log : List Passage) : Prop where
  gate : l.session.region.gate = log.foldr Gate.pass { policy }
  guarded : policy = .exclusive → l.session.Guarded
  visits : ∀ h, Visit h l.session.kinds[h]? (passagesOf h log)
  order : l.queue.map Waiting.arrival =
    List.range' l.session.transactions.size l.queue.length
  arrived : l.session.transactions.size + l.queue.length = l.arrivals
  counted : l.session.region.commits + l.session.region.aborts = l.session.kinds.count none
  issued : l.session.region.ids.issued ≤ l.arrivals

/-! ### What is kept -/

/-- What holds before the queue is let in, and is kept when its first one passes
    the gate, holds afterwards. -/
theorem letIn_induct {P : Session → List Waiting → List Passage → Prop}
    (next : ∀ {s first rest log}, s.region.gate.admits first.mode.isReadOnly = true →
      P s (first :: rest) log → P (s.enter first.mode).2 rest
        (.entered s.transactions.size first.mode.isReadOnly :: log))
    {s : Session} {queue : List Waiting} (log : List Passage) (h : P s queue log) :
    P (letIn s queue).2.1 (letIn s queue).2.2 (entries (letIn s queue).1 ++ log) := by
  induction queue generalizing s log with
  | nil => exact h
  | cons first rest ih =>
    unfold letIn
    split
    next hadmits => simpa [entries, Session.enter] using ih _ (next hadmits h)
    next => exact h

theorem settled_settle (l : Lobby) : l.settle.2.Settled := by
  -- Letting in stops at the first who is not admitted, whoever came before.
  suffices hletIn : ∀ (queue : List Waiting) (s : Session), ∀ first ∈ (letIn s queue).2.2.head?,
      (letIn s queue).2.1.region.gate.admits first.mode.isReadOnly = false from
    hletIn l.queue l.session
  intro queue
  induction queue with
  | nil => simp [letIn]
  | cons first rest ih =>
    intro s
    unfold letIn
    split
    next => exact ih _
    next hnot => simpa using hnot

namespace Kept

theorem policy_eq (hk : Kept policy l log) : l.session.region.gate.policy = policy := by
  rw [hk.gate, Gate.policy_foldr]

/-- What goes unbooked changes nothing here. -/
theorem unbooked (hk : Kept policy l log) {s : Session} (h : l.session.Unbooked s) :
    Kept policy { l with session := s } log := by
  have hsize : s.transactions.size = l.session.transactions.size := by
    rw [← Session.length_kinds, h.kinds, Session.length_kinds]
  constructor
  · exact h.books.gate.trans hk.gate
  · exact fun hexclusive => (hk.guarded hexclusive).congr h.kinds h.books.gate
  · simpa [h.kinds] using hk.visits
  · simpa [hsize] using hk.order
  · simpa [hsize] using hk.arrived
  · simpa [h.kinds, h.books.commits, h.books.aborts] using hk.counted
  · simpa [h.books.ids] using hk.issued

/-- A transaction arrives at the end of the queue. -/
theorem arrive (hk : Kept policy l log) {readOnly : Bool} {mode : Mode} {region : Region}
    (hidentified : l.session.region.identify? readOnly = .ok (mode, region)) :
    Kept policy
      { session := { l.session with region }
        queue := l.queue ++ [⟨l.arrivals, mode⟩]
        arrivals := l.arrivals + 1 } log := by
  obtain ⟨hregion, hids⟩ := Session.identify?_inv hidentified
  have hissued : region.ids.issued ≤ l.session.region.ids.issued + 1 := by
    rcases hids with ⟨-, -, hsame⟩ | ⟨id, -, -, -, hnext, -⟩
    · rw [hsame]
      omega
    · omega
  have hgate : region.gate = l.session.region.gate := by rw [hregion]
  have hcommits : region.commits = l.session.region.commits := by rw [hregion]
  have haborts : region.aborts = l.session.region.aborts := by rw [hregion]
  have hcount : region.commits + region.aborts = l.session.kinds.count none := by
    rw [hcommits, haborts, hk.counted]
  constructor
  · exact hgate.trans hk.gate
  · exact fun hexclusive => (hk.guarded hexclusive).congr rfl hgate
  · exact hk.visits
  · simp [hk.order, List.range'_concat, hk.arrived]
  · simp [← hk.arrived, Nat.add_assoc]
  · exact hcount
  · exact Nat.le_trans hissued (Nat.succ_le_succ hk.issued)

/-- The first in the queue passes the gate. -/
theorem enter (hk : Kept policy l log) {first : Waiting} {rest : List Waiting}
    (hqueue : l.queue = first :: rest)
    (hadmits : l.session.region.gate.admits first.mode.isReadOnly = true) :
    Kept policy { l with session := (l.session.enter first.mode).2, queue := rest }
      (.entered l.session.transactions.size first.mode.isReadOnly :: log) := by
  have hkinds := l.session.kinds_enter first.mode
  have hsize : (l.session.enter first.mode).2.transactions.size
      = l.session.transactions.size + 1 := by simp [Session.enter]
  have horder := hk.order
  have harrived := hk.arrived
  rw [hqueue, List.length_cons] at horder harrived
  constructor
  · exact congrArg (Gate.enter · first.mode.isReadOnly) hk.gate
  · exact fun hexclusive => (hk.guarded hexclusive).entry (Session.entry_enter hadmits)
  · refine visits_cons hk.visits ?_ fun h hh => ?_
    · -- The handle is new, so there is no passage with it in the log.
      have hbefore := hk.visits l.session.transactions.size
      rw [List.getElem?_eq_none (by simp)] at hbefore
      generalize hpassages : passagesOf l.session.transactions.size log = passages at hbefore
      cases hbefore
      simpa [hkinds, Passage.handle, hpassages] using .inside _
    · replace hh : l.session.kinds.length ≠ h := by simpa [Passage.handle] using hh
      rw [hkinds, List.getElem?_append]
      split
      next => rfl
      next hge =>
        rw [List.getElem?_eq_none (Nat.le_of_not_lt hge),
          List.getElem?_eq_none (by rw [List.length_singleton]; omega)]
  · rw [hsize]
    exact (by simpa [List.range'_succ] using horder : first.arrival = _ ∧ _).2
  · rw [hsize]
    exact (Nat.add_right_comm ..).trans harrived
  · rw [hkinds, List.count_append]
    exact hk.counted
  · exact hk.issued

/-- A transaction that is open leaves the gate. -/
theorem leave (hk : Kept policy l log) {s : Session} {h : Handle} {committed : Bool}
    {t : Transaction} (ho : l.session.open? h = some t)
    (e : Session.Entry l.session s [(h, committed)]) :
    Kept policy { l with session := s } (.left h t.isReadOnly :: log) := by
  have hguarded := fun hexclusive => (hk.guarded hexclusive).entry e
  have hkind := Session.kinds_of_open ho
  cases e with
  | ended readOnly isOpen kinds ids gate commits aborts =>
    cases hkind.symm.trans isOpen
    obtain ⟨hlt, hget⟩ := List.getElem?_eq_some_iff.1 hkind
    have hsize : s.transactions.size = l.session.transactions.size := by
      rw [← Session.length_kinds, kinds, List.length_set, Session.length_kinds]
    constructor
    · exact gate.trans (congrArg (Gate.leave · t.isReadOnly) hk.gate)
    · exact hguarded
    · refine visits_cons hk.visits ?_ fun k hh => ?_
      · -- It is inside, so it has entered and not left.
        have hbefore := hk.visits h
        rw [hkind] at hbefore
        generalize hpassages : passagesOf h log = passages at hbefore
        cases hbefore
        simpa [kinds, Passage.handle, hpassages, List.getElem?_set_self hlt] using .over _
      · replace hh : h ≠ k := hh
        rw [kinds, List.getElem?_set_ne hh]
    · rw [hsize]
      exact hk.order
    · rw [hsize]
      exact hk.arrived
    · have hcount : s.kinds.count none = l.session.kinds.count none + 1 := by
        rw [kinds, List.count_set hlt, hget]
        simp
      have hbefore := hk.counted
      rw [hcount, commits, aborts]
      cases committed <;> simp <;> omega
    · rw [ids]
      exact hk.issued

end Kept

/-! ### Steps and runs -/

theorem kept_settle (hk : Kept policy l log) :
    Kept policy l.settle.2 (entries l.settle.1 ++ log) :=
  letIn_induct (P := fun session queue log =>
    Kept policy { session, queue, arrivals := l.arrivals } log)
    (fun hadmits hbefore => hbefore.enter rfl hadmits) log hk

theorem kept_step (hk : Kept policy l log) (operation : Operation) :
    Kept policy (l.step operation).2
      (entries (l.step operation).1 ++ (l.exits operation ++ log)) := by
  cases operation with
  | begin readOnly =>
    cases hidentified : l.session.region.identify? readOnly with
    | error failure => simpa [step, Lobby.arrive, hidentified, entries, exits] using hk
    | ok identified =>
      simpa [step, Lobby.arrive, hidentified, exits] using kept_settle (hk.arrive hidentified)
  | finish h =>
    cases ho : l.session.open? h with
    | none =>
      simpa [step, Lobby.finish, Session.finish, exits, ho] using kept_settle hk
    | some t =>
      obtain ⟨committed, -, hentry⟩ := Session.entry_finish ho
      simpa [step, Lobby.finish, exits, ho] using kept_settle (hk.leave ho hentry)
  | abandon h =>
    cases ho : l.session.open? h with
    | none =>
      simpa [step, Lobby.abandon, Session.abandon, exits, ho] using kept_settle hk
    | some t =>
      simpa [step, Lobby.abandon, exits, ho] using
        kept_settle (hk.leave ho (Session.entry_abandon ho))
  | read h a length => exact hk.unbooked (l.session.unbooked_step rfl)
  | write h a bytes => exact hk.unbooked (l.session.unbooked_step rfl)
  | alloc h size memory => exact hk.unbooked (l.session.unbooked_step rfl)
  | free h a => exact hk.unbooked (l.session.unbooked_step rfl)
  | abort h => exact hk.unbooked (l.session.unbooked_step rfl)
  | collect => exact hk.unbooked (l.session.unbooked_step rfl)

theorem kept_run (hk : Kept policy l log) (operations : List Operation) :
    Kept policy (l.run operations) (l.journal log operations) := by
  induction operations generalizing l log with
  | nil => exact hk
  | cons operation rest ih => exact ih (kept_step hk operation)

theorem settled_step (hs : l.Settled) (operation : Operation) : (l.step operation).2.Settled := by
  -- What goes unbooked does not move the gate.
  have hinner : ∀ {s : Session}, l.session.Unbooked s → Settled { l with session := s } :=
    fun h first hfirst => h.books.gate ▸ hs first hfirst
  cases operation with
  | begin readOnly =>
    cases hidentified : l.session.region.identify? readOnly with
    | error failure => simpa [step, Lobby.arrive, hidentified] using hs
    | ok identified => simpa [step, Lobby.arrive, hidentified] using settled_settle _
  | finish h => exact settled_settle _
  | abandon h => exact settled_settle _
  | read h a length => exact hinner (l.session.unbooked_step rfl)
  | write h a bytes => exact hinner (l.session.unbooked_step rfl)
  | alloc h size memory => exact hinner (l.session.unbooked_step rfl)
  | free h a => exact hinner (l.session.unbooked_step rfl)
  | abort h => exact hinner (l.session.unbooked_step rfl)
  | collect => exact hinner (l.session.unbooked_step rfl)

theorem settled_run (hs : l.Settled) (operations : List Operation) :
    (l.run operations).Settled := by
  induction operations generalizing l with
  | nil => exact hs
  | cons operation rest ih => exact ih (settled_step hs operation)

/-- Nobody has arrived at a newly created session. -/
theorem kept_of_create {settings : Settings} {s : Session} (h : Session.create settings = .ok s) :
    Kept settings.admission { session := s } [] := by
  obtain ⟨r, hcreate, rfl⟩ := Session.create_inv h
  obtain ⟨-, i, hallocate⟩ := Region.create_inv hcreate
  have hbooks := Region.sameBooks_allocate? hallocate
  have hcount : r.commits + r.aborts = 0 := by simp [hbooks.commits, hbooks.aborts]
  constructor
  · exact hbooks.gate
  · intro hexclusive
    have hgate : r.gate = { policy := .exclusive } := hexclusive ▸ hbooks.gate
    constructor <;> simp [hgate, Session.kinds]
  · intro k
    simpa [Session.kinds] using .awaited
  · rfl
  · rfl
  · exact hcount
  · simp [hbooks.ids]

/-- Somebody is open for as long as somebody waits. -/
theorem Kept.accompanied (hk : Kept .exclusive l log) (hs : l.Settled) (hqueue : l.queue ≠ []) :
    ∃ h t, l.session.open? h = some t := by
  obtain ⟨first, rest, hfirst⟩ := List.exists_cons_of_ne_nil hqueue
  obtain ⟨h, t, ho, -⟩ := (hk.guarded rfl).kept_out (hs first (by simp [hfirst]))
  exact ⟨h, t, ho⟩

/-- A gate that is always open keeps nobody waiting. -/
theorem Kept.queue_eq_nil (hk : Kept .optimistic l log) (hs : l.Settled) : l.queue = [] := by
  cases hqueue : l.queue with
  | nil => rfl
  | cons first rest =>
    have hnot := hs first (by simp [hqueue])
    rw [Gate.admits_optimistic hk.policy_eq] at hnot
    cases hnot

/-! ### Beginnings -/

/-- Those who have arrived are those who were begun. -/
theorem arrivals_step (l : Lobby) (operation : Operation) :
    (l.step operation).2.arrivals = l.arrivals + if l.accepts operation then 1 else 0 := by
  cases operation with
  | begin readOnly =>
    cases hidentified : l.session.region.identify? readOnly with
    | error failure => simp [step, accepts, arrive, hidentified, Except.isOk, Except.toBool]
    | ok identified => simp [step, accepts, arrive, settle, hidentified, Except.isOk, Except.toBool]
  | _ => rfl

theorem arrivals_run (l : Lobby) (operations : List Operation) :
    (l.run operations).arrivals = l.arrivals + l.begins operations := by
  induction operations generalizing l with
  | nil => rfl
  | cons operation rest ih =>
    show ((l.step operation).2.run rest).arrivals = _
    rw [ih, arrivals_step, begins, Nat.add_assoc]

/-- While there are ids left, nobody is refused. -/
theorem begins_eq (hk : Kept policy l log) {operations : List Operation}
    (hfew : l.arrivals + operations.countP Operation.isBegin < TransactionId.readOnly.val) :
    l.begins operations = operations.countP Operation.isBegin := by
  induction operations generalizing l log with
  | nil => rfl
  | cons operation rest ih =>
    rw [List.countP_cons] at hfew
    have haccepts : l.accepts operation = operation.isBegin := by
      cases operation with
      | begin readOnly =>
        have hissued := hk.issued
        have hmint : l.session.region.ids.issued + 1 < TransactionId.readOnly.val := by
          simp only [Operation.isBegin, if_true] at hfew
          omega
        cases readOnly <;>
          simp [accepts, Operation.isBegin, arrive, Region.identify?, IdSource.mint?, hmint,
            Except.isOk, Except.toBool]
      | _ => rfl
    have hrest := ih (kept_step hk operation) (by rw [arrivals_step, haccepts]; omega)
    rw [begins, hrest, haccepts, List.countP_cons, Nat.add_comm]

/-! ### Letting everybody in -/

theorem later_settle (l : Lobby) : l.session.Later l.settle.2.session :=
  letIn_induct (P := fun s _ _ => l.session.Later s)
    (fun _ hbefore => hbefore.trans (Session.later_enter ..)) [] (.refl l.session)

theorem later_abandon (l : Lobby) (h : Handle) : l.session.Later (l.abandon h).2.session :=
  (l.session.later_abandon h).trans (later_settle { l with session := l.session.abandon h })

/-- Whoever is abandoned has ended, and stays so when others are. -/
theorem later_run_abandon (l : Lobby) (handles : List Handle) :
    l.session.Later (l.run (handles.map .abandon)).session ∧
      ∀ h ∈ handles, h < l.session.transactions.size →
        (l.run (handles.map .abandon)).session.kinds[h]? = some none := by
  induction handles generalizing l with
  | nil => exact ⟨.refl _, nofun⟩
  | cons first rest ih =>
    obtain ⟨hlater, hended⟩ := ih (l.abandon first).2
    have hfirst := l.later_abandon first
    refine ⟨hfirst.trans hlater, fun h hh hlt => ?_⟩
    rcases List.mem_cons.1 hh with rfl | hrest
    · -- Those who are let in after it get handles of their own.
      refine hlater.ended h ((later_settle _).ended h (Session.kinds_eq_none_iff.2 ⟨?_, ?_⟩))
      · exact Nat.lt_of_lt_of_le hlt (l.session.later_abandon h).size
      · exact l.session.open?_abandon_self h
    · exact hended h hrest (Nat.lt_of_lt_of_le hlt hfirst.size)

theorem begins_abandon (l : Lobby) (handles : List Handle) :
    l.begins (handles.map .abandon) = 0 := by
  induction handles generalizing l with
  | nil => rfl
  | cons first rest ih => simpa [begins, accepts] using ih _

theorem abandonOpen_eq_run (l : Lobby) :
    l.abandonOpen = l.run (l.session.openHandles.map .abandon) := by
  simp [abandonOpen, run, List.foldl_map, step]

theorem arrivals_abandonOpen (l : Lobby) : l.abandonOpen.arrivals = l.arrivals := by
  rw [abandonOpen_eq_run, arrivals_run, begins_abandon, Nat.add_zero]

theorem kept_abandonOpen (hk : Kept policy l log) : ∃ log', Kept policy l.abandonOpen log' := by
  rw [abandonOpen_eq_run]
  exact ⟨_, kept_run hk _⟩

theorem settled_abandonOpen (hs : l.Settled) : l.abandonOpen.Settled := by
  rw [abandonOpen_eq_run]
  exact settled_run hs _

/-- Once all who are open have been abandoned, only newcomers can be open. -/
theorem open?_abandonOpen (l : Lobby) {h : Handle} (hlt : h < l.session.transactions.size) :
    l.abandonOpen.session.open? h = none := by
  rw [abandonOpen_eq_run]
  obtain ⟨hlater, hended⟩ := l.later_run_abandon l.session.openHandles
  cases ho : l.session.open? h with
  | none =>
    exact (Session.kinds_eq_none_iff.1 (hlater.ended h (Session.kinds_eq_none_iff.2 ⟨hlt, ho⟩))).2
  | some t =>
    have hmem : h ∈ l.session.openHandles := by simp [Session.openHandles, hlt, ho]
    exact (Session.kinds_eq_none_iff.1 (hended h hmem hlt)).2

/-- One round lets in at least one of those who wait: otherwise they would wait
    with nobody open. -/
theorem length_queue_abandonOpen (hk : Kept .exclusive l log) (hs : l.Settled) :
    l.abandonOpen.queue.length ≤ l.queue.length - 1 := by
  obtain ⟨log', hkept⟩ := kept_abandonOpen hk
  have hbefore := hk.arrived
  have hafter := hkept.arrived
  rw [arrivals_abandonOpen] at hafter
  -- Whoever is open after the round is new, so the round has let somebody in.
  by_cases hempty : l.abandonOpen.queue = []
  · simp [hempty]
  · obtain ⟨h, t, ho⟩ := hkept.accompanied (settled_abandonOpen hs) hempty
    have hnew : ¬ h < l.session.transactions.size := by
      intro hold
      rw [l.open?_abandonOpen hold] at ho
      cases ho
    have hgrown : l.session.transactions.size < l.abandonOpen.session.transactions.size :=
      Nat.lt_of_le_of_lt (Nat.le_of_not_lt hnew) (Session.lt_size_of_open ho)
    omega

/-- After as many rounds as there are transactions waiting, nobody waits. -/
theorem rounds (hk : Kept .exclusive l log) (hs : l.Settled) (n : Nat) :
    let l' := (List.range n).foldl (fun l _ => l.abandonOpen) l
    (∃ log', Kept .exclusive l' log') ∧ l'.Settled ∧ l'.arrivals = l.arrivals ∧
      l'.queue.length ≤ l.queue.length - n := by
  induction n with
  | zero => exact ⟨⟨log, hk⟩, hs, rfl, Nat.le_refl _⟩
  | succ n ih =>
    rw [List.range_succ, List.foldl_append]
    generalize (List.range n).foldl (fun l _ => l.abandonOpen) l = l' at ih
    obtain ⟨⟨log', hkept⟩, hsettled, harrivals, hlength⟩ := ih
    have hshorter := length_queue_abandonOpen hkept hsettled
    refine ⟨kept_abandonOpen hkept, settled_abandonOpen hsettled,
      l'.arrivals_abandonOpen.trans harrivals, ?_⟩
    show l'.abandonOpen.queue.length ≤ _
    omega

/-- In the end everybody who has arrived has been inside, has left, and is counted. -/
theorem drain_spec (hk : Kept .exclusive l log) (hs : l.Settled) :
    l.drain.queue = [] ∧ (∀ h, l.drain.session.open? h = none) ∧
      l.drain.session.transactions.size = l.arrivals ∧
      l.drain.session.region.commits + l.drain.session.region.aborts = l.arrivals := by
  obtain ⟨⟨log', hkept⟩, hsettled, harrivals, hlength⟩ := rounds hk hs l.queue.length
  rw [drain, List.range_succ, List.foldl_append]
  generalize (List.range l.queue.length).foldl (fun l _ => l.abandonOpen) l = l' at *
  show l'.abandonOpen.queue = [] ∧ (∀ h, l'.abandonOpen.session.open? h = none) ∧
    l'.abandonOpen.session.transactions.size = _ ∧
    l'.abandonOpen.session.region.commits + l'.abandonOpen.session.region.aborts = _
  -- Nobody waits before the last round, so nobody is let in by it.
  have hbefore := hkept.arrived
  obtain ⟨log'', hlast⟩ := kept_abandonOpen hkept
  have hafter := hlast.arrived
  have hshorter := length_queue_abandonOpen hkept hsettled
  have hempty : l'.abandonOpen.queue = [] := List.eq_nil_of_length_eq_zero (by omega)
  rw [arrivals_abandonOpen] at hafter
  have hsize : l'.abandonOpen.session.transactions.size = l'.session.transactions.size := by omega
  have hopen : ∀ h, l'.abandonOpen.session.open? h = none := by
    intro h
    by_cases hlt : h < l'.session.transactions.size
    · exact l'.open?_abandonOpen hlt
    · exact Session.open?_eq_none_of_size_le _ (by rw [hsize]; exact Nat.le_of_not_lt hlt)
  refine ⟨hempty, hopen, by omega, ?_⟩
  -- With nobody open, everybody who has been inside has ended.
  have hall : l'.abandonOpen.session.kinds.count none = l'.abandonOpen.session.kinds.length := by
    refine List.count_eq_length.2 fun kind hkind => ?_
    obtain ⟨h, hh⟩ := List.mem_iff_getElem?.1 hkind
    cases kind with
    | none => rfl
    | some readOnly =>
      obtain ⟨t, ho, -⟩ := Session.open_of_kinds hh
      rw [hopen h] at ho
      cases ho
  have hcounted := hlast.counted
  rw [hall, Session.length_kinds] at hcounted
  omega

/-! ### Every run -/

/-- What is promised to those who begin under exclusive admission. -/
structure Attended (l : Lobby) (log : List Passage) (begins : Nat) : Prop where
  /-- Nothing moves the gate but the passages in the log. -/
  gate : l.session.region.gate = log.foldr Gate.pass { policy := .exclusive }
  /-- Whoever is let in passes the gate once, and leaves it once, when it ends. -/
  visits : ∀ h, Visit h l.session.kinds[h]? (passagesOf h log)
  /-- A writer is open alone. -/
  alone : ∀ h k t u, l.session.open? h = some t → t.isReadOnly = false →
    l.session.open? k = some u → k = h
  /-- Nobody overtakes. -/
  inTurn : l.queue.map Waiting.arrival =
    List.range' l.session.transactions.size l.queue.length
  /-- Somebody is open for as long as somebody waits. -/
  accompanied : l.queue ≠ [] → ∃ h t, l.session.open? h = some t
  /-- A reader is not first in the queue unless a writer is open. -/
  together : ∀ first ∈ l.queue.head?, first.mode.isReadOnly = true →
    ∃ h t, l.session.open? h = some t ∧ t.isReadOnly = false
  /-- Abandoning all who are open, again and again, ends with nobody waiting or open. -/
  drained : l.drain.queue = [] ∧ ∀ h, l.drain.session.open? h = none
  /-- Then everybody has been let in. -/
  admitted : l.drain.session.transactions.size = begins
  counted : l.drain.session.region.stats.commits + l.drain.session.region.stats.aborts = begins

/-- Under exclusive admission everybody is attended to, whatever those who are let in
    do; under optimistic admission nobody ever waits. -/
theorem run_attended {settings : Settings} {s : Session} (hcreate : Session.create settings = .ok s)
    (operations : List Operation) :
    let start : Lobby := { session := s }
    (settings.admission = .exclusive → Attended (start.run operations)
      (start.journal [] operations) (start.begins operations)) ∧
    (settings.admission = .optimistic → (start.run operations).queue = [] ∧
      (start.run operations).session.transactions.size = start.begins operations) ∧
    (operations.countP Operation.isBegin < TransactionId.readOnly.val →
      start.begins operations = operations.countP Operation.isBegin) := by
  intro start
  have hstart := kept_of_create hcreate
  have hkept := kept_run hstart operations
  have hsettled := settled_run (l := start) (by simp [Settled, start]) operations
  have harrivals := start.arrivals_run operations
  rw [show start.arrivals = 0 from rfl, Nat.zero_add] at harrivals
  refine ⟨fun hexclusive => ?_, fun hoptimistic => ?_, fun hfew => begins_eq hstart (by simpa)⟩
  · rw [hexclusive] at hkept
    have hguarded := hkept.guarded rfl
    obtain ⟨hqueue, hopen, hsize, hcount⟩ := drain_spec hkept hsettled
    exact {
      gate := hkept.gate
      visits := hkept.visits
      alone := fun h k t u ho hrw hu => hguarded.alone ho hrw hu
      inTurn := hkept.order
      accompanied := hkept.accompanied hsettled
      together := by
        intro first hfirst hro
        obtain ⟨h, t, ho, hwriter⟩ := hguarded.kept_out (hsettled first hfirst)
        exact ⟨h, t, ho, hwriter hro⟩
      drained := ⟨hqueue, hopen⟩
      admitted := hsize.trans harrivals
      counted := hcount.trans harrivals }
  · rw [hoptimistic] at hkept
    have hempty := hkept.queue_eq_nil hsettled
    have harrived := hkept.arrived
    rw [hempty] at harrived
    exact ⟨hempty, harrived.trans harrivals⟩

/-- A session on one word, under exclusive admission. -/
def gatedWord : Session :=
  match Session.create { size := 8, align := 8, admission := .exclusive } with
  | .ok s => s
  | .error _ => { region := { settings := { size := 8, align := 8, admission := .exclusive } } }

/-- A writer arrives after a reader, and another reader after the writer; then the
    first reader leaves. -/
def readerWriterReader : List Operation :=
  [.begin true, .begin false, .begin true, .finish 0]

/-- The writer is in then, and the last reader waits. -/
theorem run_attended_reader_writer_reader :
    Session.create { size := 8, align := 8, admission := .exclusive } = .ok gatedWord ∧
      (run { session := gatedWord } readerWriterReader).queue = [⟨2, .readOnly⟩] ∧
      journal { session := gatedWord } [] readerWriterReader =
        [.entered 1 false, .left 0 true, .entered 0 true] ∧
      Attended (run { session := gatedWord } readerWriterReader)
        (journal { session := gatedWord } [] readerWriterReader) 3 ∧
      readerWriterReader.countP Operation.isBegin < TransactionId.readOnly.val := by
  have hcreate : Session.create { size := 8, align := 8, admission := .exclusive }
    = .ok gatedWord := rfl
  have hfew : readerWriterReader.countP Operation.isBegin < TransactionId.readOnly.val := by decide
  obtain ⟨hattended, -, hbegins⟩ := run_attended hcreate readerWriterReader
  refine ⟨hcreate, by decide +kernel, by decide +kernel, ?_, hfew⟩
  rw [show (3 : Nat) = begins { session := gatedWord } readerWriterReader from (hbegins hfew).symm]
  exact hattended rfl

end Lobby

end TransactionalMemory
