import TransactionalMemory.Proofs.Session.Continuity
import TransactionalMemory.Proofs.Session.Refinement

/-! # What the logs list

    An open transaction has in its logs the slots that it has allocated and
    those that it has freed. After every orderly run these are the slots that
    its operations have reported during the run, the latest one first, and no
    others. -/

namespace TransactionalMemory

/-- The transaction that an operation reads, writes, allocates or frees for. -/
def Operation.user? : Operation → Option Handle
  | .read h _ _ | .write h _ _ | .alloc h _ _ | .free h _ => some h
  | .begin _ | .abort _ | .finish _ | .abandon _ | .collect => none

namespace Session

variable {s : Session} {h k : Handle} {t t' : Transaction} {allocated freed : List Nat}

/-! ## What becomes of a transaction -/

/-- Whoever is open after an operation of a transaction is another one, or has done it. -/
theorem open?_access {α : Type} (operation : Transaction → Region → Outcome α)
    (ho' : (s.access k operation).2.open? h = some t') :
    k ≠ h ∧ s.open? h = some t' ∨
      k = h ∧ ∃ t, s.open? h = some t ∧ t' = (operation t s.region).transaction := by
  by_cases hk : k = h
  · subst hk
    cases ho : s.open? k with
    | none =>
      rw [access, ho] at ho'
      cases ho.symm.trans ho'
    | some t =>
      rw [access_of_open _ ho, open?_put_self ho] at ho'
      exact .inr ⟨rfl, t, rfl, (Option.some.inj ho').symm⟩
  · exact .inl ⟨hk, (s.open?_access_ne operation hk).symm.trans ho'⟩

/-- What a transaction that is open after an operation was before, and what the
    operation has made of it. -/
inductive Became (s : Session) (h : Handle) (t' : Transaction) : Operation → Prop where
  | began {readOnly : Bool} (new : s.transactions.size ≤ h)
      (unlogged : t'.touched = [] ∧ t'.observed = [] ∧ t'.allocated = [] ∧ t'.freed = []) :
      Became s h t' (.begin readOnly)
  /-- It was another one's operation. -/
  | kept {operation : Operation} (isOpen : s.open? h = some t')
      (other : operation.user? ≠ some h) : Became s h t' operation
  /-- It has given up. -/
  | gaveUp {t : Transaction} (isOpen : s.open? h = some t) (after : t' = t.doom) :
      Became s h t' (.abort h)
  | read {t : Transaction} {a : Address} {length : Nat} (isOpen : s.open? h = some t)
      (after : t' = (t.read s.region a length).transaction) : Became s h t' (.read h a length)
  | write {t : Transaction} {a : Address} {bytes : List UInt8} (isOpen : s.open? h = some t)
      (after : t' = (t.write s.region a bytes).transaction) : Became s h t' (.write h a bytes)
  | alloc {t : Transaction} {size : Nat} {memory : Bool} (isOpen : s.open? h = some t)
      (after : t' = (t.alloc s.region size memory).transaction) :
      Became s h t' (.alloc h size memory)
  | free {t : Transaction} {a : Address} (isOpen : s.open? h = some t)
      (after : t' = (t.free s.region a).transaction) : Became s h t' (.free h a)

theorem became_of_step {operation : Operation}
    (ho' : (s.step operation).2.open? h = some t') : s.Became h t' operation := by
  have hother : ∀ {k}, k ≠ h → some k ≠ some h := fun hk heq => hk (Option.some.inj heq)
  cases operation with
  | begin readOnly =>
    change (s.begin readOnly).2.open? h = some t' at ho'
    rcases s.begin_cases readOnly with hsame | ⟨t, hbegins⟩
    · exact .kept (hsame ▸ ho') nofun
    · rcases hbegins.before ho' with hold | ⟨rfl, rfl⟩
      · exact .kept hold nofun
      · exact .began (Nat.le_refl _) hbegins.unlogged
  | read k a length =>
    rcases open?_access (fun t r => t.read r a length) ho' with ⟨hk, hold⟩ | ⟨rfl, t, ho, rfl⟩
    · exact .kept hold (hother hk)
    · exact .read ho rfl
  | write k a bytes =>
    rcases open?_access (fun t r => t.write r a bytes) ho' with ⟨hk, hold⟩ | ⟨rfl, t, ho, rfl⟩
    · exact .kept hold (hother hk)
    · exact .write ho rfl
  | alloc k size memory =>
    rcases open?_access (fun t r => t.alloc r size memory) ho' with ⟨hk, hold⟩ | ⟨rfl, t, ho, rfl⟩
    · exact .kept hold (hother hk)
    · exact .alloc ho rfl
  | free k a =>
    rcases open?_access (fun t r => t.free r a) ho' with ⟨hk, hold⟩ | ⟨rfl, t, ho, rfl⟩
    · exact .kept hold (hother hk)
    · exact .free ho rfl
  | abort k =>
    change (s.abort k).open? h = some t' at ho'
    rcases s.abort_cases k with hsame | ⟨t, ho, hput⟩
    · exact .kept (hsame ▸ ho') nofun
    · rw [hput] at ho'
      by_cases hk : h = k
      · subst hk
        cases (open?_put_self ho).symm.trans ho'
        exact .gaveUp ho rfl
      · exact .kept ((open?_put_ne hk).symm.trans ho') nofun
  | finish k =>
    by_cases hk : k = h
    · subst hk
      cases (s.open?_finish_self k).symm.trans ho'
    · exact .kept ((s.open?_finish_ne hk).symm.trans ho') nofun
  | abandon k =>
    by_cases hk : k = h
    · subst hk
      cases (s.open?_abandon_self k).symm.trans ho'
    · exact .kept ((s.open?_abandon_ne hk).symm.trans ho') nofun
  | collect => exact .kept ho' nofun

/-! ## What operations report -/

/-- The slot that an operation allocates for transaction `h`, as it reports. -/
def allocatedBy (s : Session) (h : Handle) : Operation → List Nat
  | .alloc k size memory =>
    if k = h then
      match (s.alloc k size memory).1 with
      | some (.ok a) => a.slot?.toList
      | _ => []
    else []
  | .begin _ | .read .. | .write .. | .free .. | .abort _ | .finish _ | .abandon _ | .collect => []

/-- The slot that an operation frees for transaction `h`, as it reports. -/
def freedBy (s : Session) (h : Handle) : Operation → List Nat
  | .free k a =>
    if k = h then
      match (s.free k a).1 with
      | some (.ok ()) => a.slot?.toList
      | _ => []
    else []
  | .begin _ | .read .. | .write .. | .alloc .. | .abort _ | .finish _ | .abandon _ | .collect => []

/-- What the operations of a run report, in front of what was reported before it. -/
def logged (s : Session) (report : Session → Operation → List Nat) (log : List Nat) :
    List Operation → List Nat
  | [] => log
  | operation :: rest => (s.step operation).2.logged report (report s operation ++ log) rest

/-- Whatever a run logs is reported by one of its operations. -/
theorem mem_logged {report : Session → Operation → List Nat} {log : List Nat}
    {operations : List Operation} {i : Nat} (hi : i ∈ s.logged report log operations) :
    i ∈ log ∨ ∃ before operation after, operations = before ++ operation :: after ∧
      i ∈ report (s.run before).2 operation := by
  induction operations generalizing s log with
  | nil => exact .inl hi
  | cons operation rest ih =>
    rcases ih hi with hhead | ⟨before, later, after, rfl, hlater⟩
    · rcases List.mem_append.1 hhead with hreport | hlog
      · exact .inr ⟨[], operation, rest, rfl, hreport⟩
      · exact .inl hlog
    · exact .inr ⟨operation :: before, later, after, rfl, hlater⟩

/-! ## One operation -/

/-- Operations of transactions that are not open report nothing. -/
theorem reports_of_not_open (hclosed : s.open? h = none) (operation : Operation) :
    s.allocatedBy h operation = [] ∧ s.freedBy h operation = [] := by
  cases operation with
  | alloc k size memory =>
    refine ⟨?_, rfl⟩
    by_cases hk : k = h
    · simp [allocatedBy, hk, alloc, access, hclosed]
    · simp [allocatedBy, hk]
  | free k a =>
    refine ⟨rfl, ?_⟩
    by_cases hk : k = h
    · simp [freedBy, hk, free, access, hclosed]
    · simp [freedBy, hk]
  | _ => exact ⟨rfl, rfl⟩

/-- Only an allocation that succeeds is reported as one. -/
theorem alloc_of_mem_allocatedBy {operation : Operation} {i : Nat}
    (hi : i ∈ s.allocatedBy h operation) :
    ∃ size memory, operation = .alloc h size memory ∧
      ∃ a, (s.alloc h size memory).1 = some (.ok a) ∧ a.slot? = some i := by
  cases operation with
  | alloc k size memory =>
    simp only [allocatedBy] at hi
    split at hi
    next hk =>
      split at hi
      next a ha => exact ⟨size, memory, by rw [hk], a, hk ▸ ha, by simpa using hi⟩
      next => cases hi
    next => cases hi
  | _ => cases hi

/-- Only a free that succeeds is reported as one. -/
theorem free_of_mem_freedBy {operation : Operation} {i : Nat} (hi : i ∈ s.freedBy h operation) :
    ∃ a, operation = .free h a ∧ (s.free h a).1 = some (.ok ()) ∧ a.slot? = some i := by
  cases operation with
  | free k a =>
    simp only [freedBy] at hi
    split at hi
    next hk =>
      split at hi
      next hok => exact ⟨a, by rw [hk], hk ▸ hok, by simpa using hi⟩
      next => cases hi
    next => cases hi
  | _ => cases hi

/-- The logs of slots have grown by what the operation reports. -/
structure Logs (s : Session) (h : Handle) (operation : Operation) (t t' : Transaction) : Prop where
  allocated : t'.allocated = s.allocatedBy h operation ++ t.allocated
  freed : t'.freed = s.freedBy h operation ++ t.freed

theorem logs_alloc (hs : s.Sound) (ho : s.open? h = some t) (size : Nat) (memory : Bool) :
    s.Logs h (.alloc h size memory) t (t.alloc s.region size memory).transaction := by
  cases t.alloc_cases s.region size memory with
  | refused doomed heq =>
    constructor
    · simp [allocatedBy, alloc, access_of_open _ ho, heq, Transaction.refuse]
    · rw [heq]; rfl
  | failed undoomed why heq =>
    constructor
    · simp [allocatedBy, alloc, access_of_open _ ho, heq, Transaction.fail, Transaction.doom]
    · rw [heq]; rfl
  | scarce undoomed readWrite attempt heq =>
    constructor
    · simp [allocatedBy, alloc, access_of_open _ ho, heq]
    · rw [heq]; rfl
  | granted undoomed readWrite whole enough found heq =>
    have hslot := (Region.allocate?_spec hs.slotted found).slot?_eq
    constructor
    · simp [allocatedBy, alloc, access_of_open _ ho, heq, hslot]
    · rw [heq]; rfl

theorem logs_free (ho : s.open? h = some t) (a : Address) :
    s.Logs h (.free h a) t (t.free s.region a).transaction := by
  cases t.free_cases s.region a with
  | refused doomed heq =>
    constructor
    · rw [heq]; rfl
    · simp [freedBy, free, access_of_open _ ho, heq, Transaction.refuse]
  | failed undoomed why heq =>
    constructor
    · rw [heq]; rfl
    · simp [freedBy, free, access_of_open _ ho, heq, Transaction.fail, Transaction.doom]
  | marked undoomed readWrite freeable live heq =>
    constructor
    · rw [heq]; rfl
    · simp [freedBy, free, access_of_open _ ho, heq, Transaction.slot?_of_freeable freeable]

/-- Operations of other transactions report nothing. -/
theorem reports_of_other {operation : Operation} (hother : operation.user? ≠ some h) :
    s.allocatedBy h operation = [] ∧ s.freedBy h operation = [] := by
  cases operation with
  | alloc k size memory => exact ⟨if_neg fun hk => hother (congrArg some hk), rfl⟩
  | free k a => exact ⟨rfl, if_neg fun hk => hother (congrArg some hk)⟩
  | _ => exact ⟨rfl, rfl⟩

/-- Whoever is open after an operation has logged what the operation reports,
    or has just begun. -/
theorem logs_of_step (hs : s.Sound) {operation : Operation}
    (ho' : (s.step operation).2.open? h = some t') :
    (∃ t, s.open? h = some t ∧ s.Logs h operation t t') ∨
      (s.transactions.size ≤ h ∧ t'.allocated = [] ∧ t'.freed = []) := by
  cases became_of_step ho' with
  | began new unlogged => exact .inr ⟨new, unlogged.2.2⟩
  | kept isOpen other =>
    obtain ⟨hallocated, hfreed⟩ := s.reports_of_other other
    refine .inl ⟨t', isOpen, ?_, ?_⟩
    · rw [hallocated, List.nil_append]
    · rw [hfreed, List.nil_append]
  | @gaveUp t isOpen after =>
    rw [after]
    exact .inl ⟨t, isOpen, rfl, rfl⟩
  | @read t a length isOpen after =>
    have hsame := t.unslotted_read s.region a length
    rw [after]
    exact .inl ⟨t, isOpen, hsame.allocated, hsame.freed⟩
  | @write t a bytes isOpen after =>
    have hsame := t.unslotted_write s.region a bytes
    rw [after]
    exact .inl ⟨t, isOpen, hsame.allocated, hsame.freed⟩
  | @alloc t size memory isOpen after =>
    rw [after]
    exact .inl ⟨t, isOpen, logs_alloc hs isOpen size memory⟩
  | @free t a isOpen after =>
    rw [after]
    exact .inl ⟨t, isOpen, logs_free isOpen a⟩

/-! ## A run -/

/-- What transaction `h` has allocated and freed. -/
structure Lists (s : Session) (h : Handle) (allocated freed : List Nat) : Prop where
  isOpen : ∀ t, s.open? h = some t → t.allocated = allocated ∧ t.freed = freed
  /-- Nobody has done anything before it begins. -/
  unknown : s.transactions.size ≤ h → allocated = [] ∧ freed = []

theorem Lists.step (hl : s.Lists h allocated freed) (hs : s.Sound) (operation : Operation) :
    (s.step operation).2.Lists h (s.allocatedBy h operation ++ allocated)
      (s.freedBy h operation ++ freed) := by
  constructor
  case isOpen =>
    intro t' ho'
    rcases logs_of_step hs ho' with ⟨t, ho, hlogs⟩ | ⟨hnew, hallocated, hfreed⟩
    · obtain ⟨rfl, rfl⟩ := hl.isOpen t ho
      exact ⟨hlogs.allocated, hlogs.freed⟩
    · obtain ⟨rfl, rfl⟩ := hl.unknown hnew
      obtain ⟨hnone, hnone'⟩ := reports_of_not_open (s.open?_eq_none_of_size_le hnew) operation
      rw [hallocated, hfreed, hnone, hnone']
      exact ⟨rfl, rfl⟩
  case unknown =>
    intro hsize
    have heffects : Effects False s _ _ := effects_step hs.toSteady operation nofun
    have hnew := Nat.le_trans (size_effects heffects) hsize
    obtain ⟨rfl, rfl⟩ := hl.unknown hnew
    obtain ⟨hnone, hnone'⟩ := reports_of_not_open (s.open?_eq_none_of_size_le hnew) operation
    rw [hnone, hnone']
    exact ⟨rfl, rfl⟩

theorem Lists.run (hl : s.Lists h allocated freed) (hs : s.Sound) (operations : List Operation)
    (horderly : s.Orderly operations) :
    (s.run operations).2.Lists h (s.logged (·.allocatedBy h) allocated operations)
      (s.logged (·.freedBy h) freed operations) := by
  induction operations generalizing s allocated freed with
  | nil => exact hl
  | cons operation rest ih =>
    obtain ⟨hallowed, hrest⟩ := horderly
    have heffects : Effects True s _ _ := effects_step hs.toSteady operation fun _ => hallowed
    exact ih (hl.step hs operation) (hs.effects heffects) hrest

/-- The logs of a transaction list what the run has reported to it. -/
theorem lists_run {settings : Settings} {start : Session} (hcreate : create settings = .ok start)
    (operations : List Operation) (horderly : start.Orderly operations) (h : Handle) :
    (start.run operations).2.Lists h (start.logged (·.allocatedBy h) [] operations)
      (start.logged (·.freedBy h) [] operations) := by
  have hlists : start.Lists h [] [] := by
    refine ⟨fun t ho => ?_, fun _ => ⟨rfl, rfl⟩⟩
    rw [open?_of_create hcreate] at ho
    cases ho
  exact hlists.run (sound_of_create hcreate) operations horderly

end Session

end TransactionalMemory
