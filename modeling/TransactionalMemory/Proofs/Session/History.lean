import TransactionalMemory.Proofs.Transaction.Passes
import TransactionalMemory.Session.Run

/-! # Histories

    What the users of a session can tell of a run: which transactions began and
    ended, which words the read-write ones accessed, and with which bytes. An
    operation contributes what follows from the operation and its answer alone;
    one that fails contributes nothing.

    A history gives every word a value without any reference to copies, pending
    writes or logs: what was last written to it by the transaction that ended
    last, with a commit, among those that wrote it.

    A run is recorded as long as it is orderly: a transaction that ends without
    a commit gives up only segments that nobody else has freed. -/

namespace TransactionalMemory

inductive Event where
  | began (h : Handle)
  /-- A read-write transaction accessed a word. -/
  | accessed (h : Handle) (access : Access)
  /-- A transaction ended, and committed or not. -/
  | ended (h : Handle) (committed : Bool)
  deriving DecidableEq

/-- The events of a run, the latest one first. -/
abbrev History : Type := List Event

namespace History

/-- What transaction `h` last wrote to a word. -/
def lastWrite (h : Handle) (ref : WordRef) : History → Option (List UInt8)
  | [] => none
  | .accessed k (.write written bytes) :: past =>
    if k = h ∧ written = ref then some bytes else lastWrite h ref past
  | _ :: past => lastWrite h ref past

/-- What was last written to a word by the transaction that ended last, with a
    commit, among those that wrote it. -/
def lastCommit (ref : WordRef) : History → Option (List UInt8)
  | [] => none
  | .ended h true :: past => (lastWrite h ref past).or (lastCommit ref past)
  | _ :: past => lastCommit ref past

/-- How many transactions wrote a word and committed. -/
def commits (ref : WordRef) : History → Nat
  | [] => 0
  | .ended h true :: past => commits ref past + if (lastWrite h ref past).isSome then 1 else 0
  | _ :: past => commits ref past

/-- The value of a word: zeros until a transaction has written it and committed. -/
def value (wordSize : Nat) (ref : WordRef) (hist : History) : List UInt8 :=
  (hist.lastCommit ref).getD (List.replicate wordSize 0)

variable {h : Handle} {ref : WordRef} {hist : History}

/-- The commit of a transaction makes its writes the values of the words. -/
theorem value_ended (wordSize : Nat) (h : Handle) (ref : WordRef) (hist : History)
    (committed : Bool) :
    value wordSize ref (.ended h committed :: hist) =
      if committed then (hist.lastWrite h ref).getD (hist.value wordSize ref)
      else hist.value wordSize ref := by
  cases committed with
  | false => rfl
  | true => cases hw : hist.lastWrite h ref <;> simp [value, lastCommit, hw]

/-- Only commits change values. -/
theorem value_append (wordSize : Nat) (ref : WordRef) (hist : History) {events : History}
    (hevents : ∀ e ∈ events, ∀ h, e ≠ .ended h true) :
    value wordSize ref (events ++ hist) = hist.value wordSize ref := by
  induction events with
  | nil => rfl
  | cons e rest ih =>
    refine Eq.trans ?_ (ih fun e he => hevents e (List.mem_cons_of_mem _ he))
    match e with
    | .began _ => rfl
    | .accessed _ _ => rfl
    | .ended _ false => rfl
    | .ended h true => exact absurd rfl (hevents _ List.mem_cons_self h)

/-- An access of another transaction, or to another word, is no write of this one. -/
theorem lastWrite_accessed_ne {k : Handle} {a : Access} (hne : k ≠ h ∨ a.ref ≠ ref) :
    lastWrite h ref (.accessed k a :: hist) = hist.lastWrite h ref := by
  match a with
  | .read _ _ => rfl
  | .write _ _ => exact if_neg fun hand => hne.elim (· hand.1) (· hand.2)

/-- What a transaction last wrote is in the later events, or else in the earlier ones. -/
theorem lastWrite_append (h : Handle) (ref : WordRef) (events hist : History) :
    lastWrite h ref (events ++ hist) = (events.lastWrite h ref).or (hist.lastWrite h ref) := by
  induction events with
  | nil => rfl
  | cons e rest ih =>
    match e with
    | .began _ => exact ih
    | .ended _ _ => exact ih
    | .accessed _ (.read _ _) => exact ih
    | .accessed k (.write written bytes) =>
      rw [List.cons_append, lastWrite, lastWrite, ih]
      split
      · rfl
      · rfl

/-- Whoever has accessed no word has written none. -/
theorem lastWrite_eq_none (hnone : ∀ a, .accessed h a ∈ hist → a.ref ≠ ref) :
    hist.lastWrite h ref = none := by
  induction hist with
  | nil => rfl
  | cons e past ih =>
    have hpast := ih fun a ha => hnone a (List.mem_cons_of_mem _ ha)
    match e with
    | .began _ => exact hpast
    | .ended _ _ => exact hpast
    | .accessed k a =>
      refine (lastWrite_accessed_ne ?_).trans hpast
      by_cases hk : k = h
      · subst hk
        exact .inr (hnone a List.mem_cons_self)
      · exact .inl hk

/-- A word that nobody has accessed has never been committed. -/
theorem lastCommit_eq_none (hnone : ∀ k a, .accessed k a ∈ hist → a.ref ≠ ref) :
    hist.lastCommit ref = none ∧ hist.commits ref = 0 := by
  induction hist with
  | nil => exact ⟨rfl, rfl⟩
  | cons e past ih =>
    have hpast := ih fun k a ha => hnone k a (List.mem_cons_of_mem _ ha)
    match e with
    | .began _ => exact hpast
    | .accessed _ _ => exact hpast
    | .ended _ false => exact hpast
    | .ended h true =>
      have hwrite : lastWrite h ref past = none :=
        lastWrite_eq_none fun a ha => hnone h a (List.mem_cons_of_mem _ ha)
      simp [lastCommit, commits, hwrite, hpast]

end History

/-! ## What an operation contributes -/

/-- The word at an address, if the address names a slot that holds a segment. -/
def Region.wordAt? (r : Region) (a : Address) : Option WordRef :=
  match a.slot? with
  | none => none
  | some slot =>
    match (r.table.lookup slot).segment? with
    | none => none
    | some n => some ⟨n, a.offset / r.wordSize⟩

namespace Session

/-- The accesses to the words of a range at an address, the last word first. -/
def accesses (s : Session) (h : Handle) (kind : WordRef → List UInt8 → Access) (a : Address)
    (bytes : List UInt8) : History :=
  match s.region.wordAt? a with
  | none => []
  | some first =>
    ((first.spread s.region.wordSize (bytes.length / s.region.wordSize) bytes).map
      fun (ref, part) => .accessed h (kind ref part)).reverse

/-- What an operation contributes to the history. -/
def events (s : Session) : Operation → History
  | .begin readOnly =>
    match (s.begin readOnly).1 with
    | .started h => [.began h]
    | .blocked | .refused _ => []
  | .read h a length =>
    match s.open? h, (s.read h a length).1 with
    | some t, some (.ok bytes) => if t.isReadOnly then [] else s.accesses h .read a bytes
    | _, _ => []
  | .write h a bytes =>
    match (s.write h a bytes).1 with
    | some (.ok ()) => s.accesses h .write a bytes
    | _ => []
  | .finish h =>
    match (s.finish h).1 with
    | some committed => [.ended h committed]
    | none => []
  | .abandon h => if (s.open? h).isSome then [.ended h false] else []
  | .alloc .. | .free .. | .abort _ | .collect => []

/-- Only the end of a transaction that commits contributes a commit. -/
theorem not_commit_of_mem_events (s : Session) {operation : Operation}
    (hquiet : ∀ h, operation = .finish h → (s.finish h).1 ≠ some true) :
    ∀ e ∈ s.events operation, ∀ h, e ≠ .ended h true := by
  have haccesses : ∀ h kind a bytes, ∀ e ∈ s.accesses h kind a bytes, ∀ k, e ≠ .ended k true := by
    intro h kind a bytes e he k
    unfold accesses at he
    split at he
    · cases he
    · obtain ⟨_, _, rfl⟩ := List.mem_map.1 (List.mem_reverse.1 he)
      nofun
  intro e he k
  cases operation with
  | begin readOnly =>
    simp only [events] at he
    split at he
    · cases List.mem_singleton.1 he; nofun
    · cases he
    · cases he
  | read h a length =>
    simp only [events] at he
    split at he
    · split at he
      · cases he
      · exact haccesses _ _ _ _ e he k
    · cases he
  | write h a bytes =>
    simp only [events] at he
    split at he
    · exact haccesses _ _ _ _ e he k
    · cases he
  | finish h =>
    simp only [events] at he
    split at he
    next committed hfinish =>
      cases List.mem_singleton.1 he
      rintro ⟨⟩
      exact hquiet _ rfl hfinish
    next => cases he
  | abandon h =>
    simp only [events] at he
    split at he
    · cases List.mem_singleton.1 he; nofun
    · cases he
  | alloc h size memory => cases he
  | free h a => cases he
  | abort h => cases he
  | collect => cases he

/-! ## Orderly runs -/

/-- Transaction `h` may give up what it allocated: each slot still holds the
    segment, in use or freed by the transaction itself. -/
def MayGiveUp (s : Session) (h : Handle) : Prop :=
  ∀ t, s.open? h = some t → ∀ i ∈ t.allocated,
    (∃ n, s.region.table.lookup i = .live n) ∨
      (i ∈ t.freed ∧ ∃ n, s.region.table.lookup i = .freeing n)

/-- Whether an operation is orderly: no transaction ends without a commit after
    another one freed a segment that it had allocated. -/
def Allows (s : Session) : Operation → Prop
  | .finish h => (s.finish h).1 = some false → s.MayGiveUp h
  | .abandon h => s.MayGiveUp h
  | .begin _ | .read .. | .write .. | .alloc .. | .free .. | .abort _ | .collect => True

/-- Whether every operation of a run is orderly. -/
def Orderly (s : Session) : List Operation → Prop
  | [] => True
  | operation :: rest => s.Allows operation ∧ (s.step operation).2.Orderly rest

/-! Whether a run is orderly, and what its operations return, can be computed. -/

instance {ε α : Type} [DecidableEq ε] [DecidableEq α] : DecidableEq (Except ε α)
  | .ok a, .ok b => decidable_of_iff (a = b) (by rw [Except.ok.injEq])
  | .error a, .error b => decidable_of_iff (a = b) (by rw [Except.error.injEq])
  | .ok _, .error _ => isFalse nofun
  | .error _, .ok _ => isFalse nofun

instance (x : Slot) : Decidable (∃ n, x = .live n) :=
  match x with
  | .live n => .isTrue ⟨n, rfl⟩
  | .freeing _ | .retired _ | .vacant => .isFalse nofun

instance (x : Slot) : Decidable (∃ n, x = .freeing n) :=
  match x with
  | .freeing n => .isTrue ⟨n, rfl⟩
  | .live _ | .retired _ | .vacant => .isFalse nofun

instance (s : Session) (h : Handle) : Decidable (s.MayGiveUp h) :=
  inferInstanceAs (Decidable (∀ t ∈ s.open? h, ∀ i ∈ t.allocated,
    (∃ n, s.region.table.lookup i = .live n) ∨
      (i ∈ t.freed ∧ ∃ n, s.region.table.lookup i = .freeing n)))

instance (s : Session) : (operation : Operation) → Decidable (s.Allows operation)
  | .finish h => inferInstanceAs (Decidable ((s.finish h).1 = some false → s.MayGiveUp h))
  | .abandon h => inferInstanceAs (Decidable (s.MayGiveUp h))
  | .begin _ | .read .. | .write .. | .alloc .. | .free .. | .abort _ | .collect =>
    inferInstanceAs (Decidable True)

instance decidableOrderly (s : Session) : (operations : List Operation) →
    Decidable (s.Orderly operations)
  | [] => inferInstanceAs (Decidable True)
  | operation :: rest =>
    have := decidableOrderly (s.step operation).2 rest
    inferInstanceAs (Decidable (s.Allows operation ∧ (s.step operation).2.Orderly rest))

/-- A run is orderly if both its parts are. -/
theorem orderly_append (s : Session) (first second : List Operation) :
    s.Orderly (first ++ second) ↔ s.Orderly first ∧ (s.run first).2.Orderly second := by
  induction first generalizing s with
  | nil => exact ⟨fun h => ⟨trivial, h⟩, And.right⟩
  | cons operation rest ih =>
    show s.Allows operation ∧ (s.step operation).2.Orderly (rest ++ second) ↔
      (s.Allows operation ∧ (s.step operation).2.Orderly rest) ∧ _
    rw [ih, and_assoc]
    rfl

/-- The history of a run, in front of what came before it. -/
def record (s : Session) (hist : History) : List Operation → History
  | [] => hist
  | operation :: rest => (s.step operation).2.record (s.events operation ++ hist) rest

/-- What came before a run stands behind what the run adds. -/
theorem record_eq_append (s : Session) (hist : History) (operations : List Operation) :
    s.record hist operations = s.record [] operations ++ hist := by
  induction operations generalizing s hist with
  | nil => rfl
  | cons operation rest ih =>
    show (s.step operation).2.record (s.events operation ++ hist) rest
      = (s.step operation).2.record (s.events operation ++ []) rest ++ hist
    rw [ih, ih (s.step operation).2 (s.events operation ++ []), List.append_nil,
      List.append_assoc]

theorem record_append (s : Session) (hist : History) (first second : List Operation) :
    s.record hist (first ++ second) = (s.run first).2.record (s.record hist first) second := by
  induction first generalizing s hist with
  | nil => rfl
  | cons operation rest ih => exact ih (s.step operation).2 _

/-- What an operation of a run adds to the history is in the history of the run. -/
theorem mem_record_of_cut {s : Session} {before after : List Operation} {operation : Operation}
    {e : Event} (he : e ∈ (s.run before).2.events operation) :
    e ∈ s.record [] (before ++ operation :: after) := by
  rw [record_append, record, record_eq_append]
  exact List.mem_append_right _ (List.mem_append_left _ he)

end Session

/-- A session that an orderly run reaches from a newly created region, with the
    history of that run. -/
inductive Recorded : History → Session → Prop where
  | created {settings : Settings} {s : Session} (created : Session.create settings = .ok s) :
      Recorded [] s
  | step {hist : History} {s : Session} (before : Recorded hist s) (operation : Operation)
      (allowed : s.Allows operation) :
      Recorded (s.events operation ++ hist) (s.step operation).2

/-- Every orderly run is recorded. -/
theorem Recorded.run {hist : History} {s : Session} (h : Recorded hist s)
    (operations : List Operation) (horderly : s.Orderly operations) :
    Recorded (s.record hist operations) (s.run operations).2 := by
  induction operations generalizing hist s with
  | nil => exact h
  | cons operation rest ih =>
    obtain ⟨hallowed, hrest⟩ := horderly
    exact ih (h.step operation hallowed) hrest

end TransactionalMemory
