import TransactionalMemory.Proofs.Session.StaleAddress

/-! # What dooms a transaction

    A transaction is doomed by its own operations only: by giving up, or by a
    failure other than running out of memory. So a transaction of which no
    operation has failed in this way, and which has not given up, can commit as
    far as dooming is concerned, whatever the others have done meanwhile. -/

namespace TransactionalMemory

/-- The operation has not failed, or for want of memory only. -/
def Outcome.Harmless {α : Type} (o : Outcome α) : Prop :=
  ∀ failure, o.value = .error failure → failure = .outOfMemory

namespace Transaction

variable {t : Transaction} {r : Region} {a : Address} {failure : Failure}

/-! ## Passes -/

@[simp] theorem doomed_readWords (t : Transaction) (s : Segment) (n first count : Nat)
    (soFar : Array UInt8) :
    (t.readWords s n first count soFar).transaction.doomed = t.doomed := by
  apply keeps_readWords (P := fun u => u.doomed = t.doomed)
  · simp
  · rfl

@[simp] theorem doomed_writeWords (t : Transaction) (s : Segment) (n wordSize first count : Nat)
    (bytes : List UInt8) :
    (t.writeWords s n wordSize first count bytes).transaction.doomed = t.doomed := by
  apply keeps_writeWords (P := fun u => u.doomed = t.doomed)
  · simp
  · rfl

/-- A pass that does not fail dooms nobody. -/
theorem doomed_ofPass {α : Type} {first : WordRef} {pass : Pass α}
    (hvalue : (ofPass r a first pass).Harmless) :
    (ofPass r a first pass).transaction.doomed = pass.transaction.doomed := by
  unfold ofPass Outcome.Harmless at *
  cases hpass : pass.value with
  | ok value => rfl
  | error w =>
    simp only [hpass] at hvalue
    cases hvalue _ rfl

/-! ## Operations -/

/-- Looking for a segment takes no memory. -/
theorem resolve_ne_outOfMemory {length : Nat} (h : t.resolve r a length = .error failure) :
    failure ≠ .outOfMemory := by
  unfold resolve reach at h
  grind

variable (hundoomed : t.doomed = false)

include hundoomed

theorem undoomed_read {length : Nat}
    (hvalue : (t.read r a length).Harmless) :
    (t.read r a length).transaction.doomed = false := by
  cases t.read_cases r a length with
  | refused doomed heq => rw [heq]; exact hundoomed
  | failed undoomed why heq =>
    rw [heq] at hvalue
    cases hvalue _ rfl
    rcases why with hresolve | ⟨-, -, -, hfalse⟩
    · exact absurd rfl (resolve_ne_outOfMemory hresolve)
    · cases hfalse
  | shared undoomed readOnly resolved found heq => rw [heq]; exact hundoomed
  | passed undoomed readWrite resolved found heq =>
    rw [heq] at hvalue ⊢
    rw [doomed_ofPass hvalue, doomed_readWords, hundoomed]

theorem undoomed_write {bytes : List UInt8}
    (hvalue : (t.write r a bytes).Harmless) :
    (t.write r a bytes).transaction.doomed = false := by
  cases t.write_cases r a bytes with
  | refused doomed heq => rw [heq]; exact hundoomed
  | failed undoomed why heq =>
    rw [heq] at hvalue
    cases hvalue _ rfl
    rcases why with ⟨-, hfalse⟩ | hresolve | ⟨-, -, -, hfalse⟩
    · cases hfalse
    · exact absurd rfl (resolve_ne_outOfMemory hresolve)
    · cases hfalse
  | passed undoomed readWrite resolved found heq =>
    rw [heq] at hvalue ⊢
    rw [doomed_ofPass hvalue, doomed_writeWords, hundoomed]

theorem undoomed_alloc {size : Nat} {memory : Bool}
    (hvalue : (t.alloc r size memory).Harmless) :
    (t.alloc r size memory).transaction.doomed = false := by
  cases t.alloc_cases r size memory with
  | refused doomed heq => rw [heq]; exact hundoomed
  | failed undoomed why heq =>
    rw [heq] at hvalue
    cases hvalue _ rfl
    rcases why with ⟨-, hfalse⟩ | ⟨-, -, hfalse⟩ <;> cases hfalse
  | scarce undoomed readWrite attempt heq => rw [heq]; exact hundoomed
  | granted undoomed readWrite whole enough found heq => rw [heq]; exact hundoomed

theorem undoomed_free (hvalue : (t.free r a).Harmless) :
    (t.free r a).transaction.doomed = false := by
  cases t.free_cases r a with
  | refused doomed heq => rw [heq]; exact hundoomed
  | failed undoomed why heq =>
    rw [heq] at hvalue
    cases hvalue _ rfl
    rcases why with ⟨-, hfalse⟩ | ⟨-, hfalse⟩ | ⟨slot, -, ⟨n, -, hfalse⟩ | ⟨-, hfalse⟩⟩
    · cases hfalse
    · cases hfalse
    · split at hfalse <;> cases hfalse
    · cases hfalse
  | marked undoomed readWrite freeable live heq => rw [heq]; exact hundoomed

end Transaction

/-! ## Along a run -/

/-- The open transaction that an operation is done for. -/
def Operation.handle? : Operation → Option Handle
  | .read h _ _ | .write h _ _ | .alloc h _ _ | .free h _ | .abort h | .finish h | .abandon h =>
    some h
  | .begin _ | .collect => none

namespace Session

variable {s : Session} {h : Handle} {t : Transaction} {operation : Operation}

/-- The operation dooms transaction `h`: it gives up, or fails for another
    reason than want of memory. -/
def Dooms (s : Session) (h : Handle) (operation : Operation) : Prop :=
  operation = .abort h ∨ operation.handle? = some h ∧
    ∃ failure, (s.step operation).1.failure? = some failure ∧ failure ≠ .outOfMemory

/-- No operation of the run dooms transaction `h`. -/
def Spares (s : Session) (h : Handle) : List Operation → Prop
  | [] => True
  | operation :: rest => ¬ s.Dooms h operation ∧ (s.step operation).2.Spares h rest

instance (s : Session) (h : Handle) (operation : Operation) : Decidable (s.Dooms h operation) :=
  decidable_of_iff (operation = .abort h ∨ operation.handle? = some h ∧
      ∃ failure ∈ (s.step operation).1.failure?, failure ≠ .outOfMemory)
    Iff.rfl

instance decidableSpares (s : Session) (h : Handle) : (operations : List Operation) →
    Decidable (s.Spares h operations)
  | [] => inferInstanceAs (Decidable True)
  | operation :: rest =>
    have := decidableSpares (s.step operation).2 h rest
    inferInstanceAs (Decidable (¬ s.Dooms h operation ∧ (s.step operation).2.Spares h rest))

/-- An operation inside a transaction dooms nobody else, and not the transaction
    if it is harmless. -/
theorem undoomed_access {α : Type} (k : Handle) (op : Transaction → Region → Outcome α)
    (hop : ∀ t, t.doomed = false → (op t s.region).Harmless →
      (op t s.region).transaction.doomed = false)
    (hundoomed : ∀ t, s.open? h = some t → t.doomed = false)
    (hspared : k = h → ∀ failure, (s.access k op).1 = some (.error failure) →
      failure = .outOfMemory) :
    ∀ t, (s.access k op).2.open? h = some t → t.doomed = false := by
  intro t' ho'
  by_cases hk : k = h
  · subst hk
    cases ho : s.open? k with
    | none =>
      rw [access, ho] at ho'
      exact hundoomed t' ho'
    | some t =>
      rw [access_of_open _ ho] at ho' hspared
      rw [open?_put_self ho] at ho'
      cases ho'
      exact hop t (hundoomed t ho) fun failure herror => hspared rfl failure (congrArg some herror)
  · rw [s.open?_access_ne _ hk] at ho'
    exact hundoomed t' ho'

/-- Whoever is not doomed, and is spared by an operation, is not doomed afterwards. -/
theorem undoomed_step (hundoomed : ∀ t, s.open? h = some t → t.doomed = false)
    (hspared : ¬ s.Dooms h operation) :
    ∀ t, (s.step operation).2.open? h = some t → t.doomed = false := by
  -- The failures of an operation of the transaction are no reason to be doomed.
  have hharmless : operation.handle? = some h → ∀ failure,
      (s.step operation).1.failure? = some failure → failure = .outOfMemory := by
    intro hown failure hfailure
    exact Decidable.byContradiction fun hother => hspared (.inr ⟨hown, failure, hfailure, hother⟩)
  cases operation with
  | begin readOnly =>
    intro t ho
    change (s.begin readOnly).2.open? h = some t at ho
    unfold begin at ho
    split at ho
    · split at ho
      · exact hundoomed t ho
      next hidentified =>
        -- Whoever has just begun is not doomed.
        rcases (begins_enter hidentified).before ho with hold | ⟨-, rfl⟩
        · exact hundoomed t hold
        · rfl
    · exact hundoomed t ho
  | read k a length =>
    refine undoomed_access k (fun t r => t.read r a length)
      (fun t hd hvalue => Transaction.undoomed_read hd hvalue) hundoomed fun hk failure hvalue => ?_
    exact hharmless (congrArg some hk) failure (by simp only [step, read, hvalue, Answer.failure?])
  | write k a bytes =>
    refine undoomed_access k (fun t r => t.write r a bytes)
      (fun t hd hvalue => Transaction.undoomed_write hd hvalue) hundoomed
      fun hk failure hvalue => ?_
    exact hharmless (congrArg some hk) failure (by simp only [step, write, hvalue, Answer.failure?])
  | alloc k size memory =>
    refine undoomed_access k (fun t r => t.alloc r size memory)
      (fun t hd hvalue => Transaction.undoomed_alloc hd hvalue) hundoomed
      fun hk failure hvalue => ?_
    exact hharmless (congrArg some hk) failure (by simp only [step, alloc, hvalue, Answer.failure?])
  | free k a =>
    refine undoomed_access k (fun t r => t.free r a)
      (fun t hd hvalue => Transaction.undoomed_free hd hvalue) hundoomed fun hk failure hvalue => ?_
    exact hharmless (congrArg some hk) failure (by simp only [step, free, hvalue, Answer.failure?])
  | abort k =>
    intro t ho
    change (s.abort k).open? h = some t at ho
    rcases s.abort_cases k with hsame | ⟨u, hu, hput⟩
    · rw [hsame] at ho
      exact hundoomed t ho
    · by_cases hk : h = k
      · exact absurd (.inl (congrArg Operation.abort hk.symm)) hspared
      · rw [hput, open?_put_ne hk] at ho
        exact hundoomed t ho
  | finish k =>
    intro t ho
    change (s.finish k).2.open? h = some t at ho
    by_cases hk : k = h
    · rw [hk, s.open?_finish_self] at ho
      cases ho
    · rw [s.open?_finish_ne hk] at ho
      exact hundoomed t ho
  | abandon k =>
    intro t ho
    change (s.abandon k).open? h = some t at ho
    by_cases hk : k = h
    · rw [hk, s.open?_abandon_self] at ho
      cases ho
    · rw [s.open?_abandon_ne hk] at ho
      exact hundoomed t ho
  | collect => exact hundoomed

/-- Whoever is spared by a whole run is not doomed at its end. -/
theorem undoomed_run {operations : List Operation}
    (hundoomed : ∀ t, s.open? h = some t → t.doomed = false) (hspared : s.Spares h operations) :
    ∀ t, (s.run operations).2.open? h = some t → t.doomed = false := by
  induction operations generalizing s with
  | nil => exact hundoomed
  | cons operation rest ih => exact ih (undoomed_step hundoomed hspared.1) hspared.2

end Session

end TransactionalMemory
