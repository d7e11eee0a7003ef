import TransactionalMemory.Proofs.Region.Allocation
import TransactionalMemory.Proofs.Session.History
import TransactionalMemory.Proofs.Transaction.Conclusion

/-! # Effects

    Whatever an operation does to a session is a chain of a few kinds of
    effects, each of them on one transaction or on none. `Effect` lists the
    kinds, with the condition under which each occurs and the events that it
    adds to the history. An invariant of sessions is proved once for each kind.

    Some invariants are kept by orderly runs only, and some by every run. So
    `Effect orderly` is an effect that is orderly in case `orderly` holds.

    A doomed transaction adds no accesses to the history: the words that a
    failed operation has accessed before it failed are not part of it. -/

namespace TransactionalMemory

namespace Session

variable {s : Session} {h k : Handle} {t u : Transaction} {o : Option Transaction} {r : Region}

/-- The session with another region, and with what has become of one transaction. -/
def put (s : Session) (h : Handle) (o : Option Transaction) (r : Region) : Session where
  region := r
  transactions := s.transactions.setIfInBounds h o

@[simp] theorem region_put (s : Session) (h : Handle) (o : Option Transaction) (r : Region) :
    (s.put h o r).region = r := rfl

@[simp] theorem size_put (s : Session) (h : Handle) (o : Option Transaction) (r : Region) :
    (s.put h o r).transactions.size = s.transactions.size := by simp [put]

theorem lt_size_of_open (ho : s.open? h = some t) : h < s.transactions.size := by
  by_cases hlt : h < s.transactions.size
  · exact hlt
  · rw [s.open?_eq_none_of_size_le (Nat.le_of_not_lt hlt)] at ho; cases ho

theorem open?_put_self (ho : s.open? h = some t) : (s.put h o r).open? h = o := by
  simp [open?, put, lt_size_of_open ho]

theorem open?_put_ne (hk : k ≠ h) : (s.put h o r).open? k = s.open? k := by
  simp [open?, put, Array.getElem?_setIfInBounds_ne (Ne.symm hk)]

/-- Whoever is open after a transaction was closed was open before, and is somebody else. -/
theorem open?_of_put_none (ho : s.open? h = some t) (hk : (s.put h none r).open? k = some u) :
    s.open? k = some u ∧ k ≠ h := by
  have hne : k ≠ h := by
    rintro rfl
    rw [open?_put_self ho] at hk
    cases hk
  exact ⟨(open?_put_ne hne).symm.trans hk, hne⟩

/-- If its transaction is put back, a session has changed as its region has. -/
theorem put_unchanged (ho : s.open? h = some t) : s.put h (some t) r = { s with region := r } := by
  unfold put
  congr 1
  apply Array.ext_getElem?
  intro i
  rw [Array.getElem?_setIfInBounds]
  split
  next hi =>
    subst hi
    have hlt := lt_size_of_open ho
    rw [if_pos hlt]
    unfold open? at ho
    rw [Array.getElem?_eq_getElem hlt] at ho ⊢
    exact congrArg some (show s.transactions[h] = some t from ho).symm
  next => rfl

/-- A session is as it was if its transaction and its region are put back. -/
theorem put_self (ho : s.open? h = some t) : s.put h (some t) s.region = s := put_unchanged ho

theorem put_put (s : Session) (h : Handle) (o o' : Option Transaction) (r r' : Region) :
    (s.put h o r).put h o' r' = s.put h o' r' := by
  simp [put]

/-- The number of open transactions that pin epoch `e`. -/
def pinnedIn (s : Session) (e : Nat) : Nat :=
  s.transactions.toList.countP fun o => o.any fun t => t.epoch == e

end Session

/-- One effect on a session, with the events that it adds to the history. -/
inductive Effect (orderly : Prop) (s : Session) : History → Session → Prop where
  | began {readOnly : Bool} {mode : Mode} {region : Region}
      (identified : s.region.identify? readOnly = .ok (mode, region)) :
      Effect orderly s [.began s.transactions.size] (Session.enter { s with region } mode).2
  /-- A read-write transaction is granted access to a word that a slot leads to. -/
  | accessed {h : Handle} {t t' : Transaction} {a : Access} {r' : Region} {i : Nat}
      (isOpen : s.open? h = some t) (readWrite : t.isReadOnly = false)
      (found : (s.region.table.lookup i).segment? = some a.ref.segment)
      (step : t.WordStep s.region a t' r') :
      Effect orderly s (if t.doomed then [] else [.accessed h a]) (s.put h (some t') r')
  | doomed {h : Handle} {t : Transaction} (isOpen : s.open? h = some t) :
      Effect orderly s [] (s.put h (some t.doom) s.region)
  /-- A read-write transaction allocates a segment of whole words. -/
  | allocated {h : Handle} {t : Transaction} {r' : Region} {size i : Nat}
      (isOpen : s.open? h = some t) (readWrite : t.isReadOnly = false)
      (whole : s.region.wordSize ∣ size) (granted : s.region.allocate? size = some (i, r')) :
      Effect orderly s [] (s.put h (some { t with allocated := i :: t.allocated }) r')
  /-- An attempt to allocate fails. -/
  | missed {r' : Region} (fails : s.region.Fails r') :
      Effect orderly s [] { s with region := r' }
  /-- A read-write transaction frees a segment other than the permanent one. -/
  | freed {h : Handle} {t : Transaction} {i n : Nat}
      (isOpen : s.open? h = some t) (readWrite : t.isReadOnly = false)
      (live : s.region.table.lookup i = .live n) (removable : i ≠ Region.permanentSlot) :
      Effect orderly s [] (s.put h (some { t with freed := i :: t.freed })
        { s.region with table := s.region.table.mark i })
  | ended {h : Handle} {t : Transaction} {committed : Bool} (isOpen : s.open? h = some t)
      (valid : committed = true → t.doomed = false ∧ t.observationsHold s.region = true)
      (gives : orderly → committed = false → s.MayGiveUp h) :
      Effect orderly s [.ended h committed] (s.put h none (t.conclusion s.region committed))
  /-- What can be released is released. -/
  | collected : Effect orderly s [] { s with region := s.region.collect.2 }

/-- A chain of effects. -/
inductive Effects (orderly : Prop) (s : Session) : History → Session → Prop where
  | nil : Effects orderly s [] s
  | snoc {s' s'' : Session} {events more : History} (before : Effects orderly s events s')
      (last : Effect orderly s' more s'') : Effects orderly s (more ++ events) s''

namespace Effects

variable {orderly : Prop} {s s' s'' : Session} {events more : History}

theorem single (e : Effect orderly s events s') : Effects orderly s events s' := by
  have hone := Effects.snoc .nil e
  rwa [List.append_nil] at hone

theorem trans (first : Effects orderly s events s') (second : Effects orderly s' more s'') :
    Effects orderly s (more ++ events) s'' := by
  induction second with
  | nil => exact first
  | snoc before last ih =>
    rw [List.append_assoc]
    exact .snoc ih last

/-- What every effect keeps, a chain of effects keeps. -/
theorem induct {P : History → Session → Prop} {hist : History}
    (step : ∀ {hist s events s'}, Effect orderly s events s' → P hist s → P (events ++ hist) s')
    (chain : Effects orderly s events s') (start : P hist s) : P (events ++ hist) s' := by
  induction chain with
  | nil => exact start
  | snoc before last ih =>
    rw [List.append_assoc]
    exact step last ih

/-- The same for what does not depend on the history. -/
theorem keep {P : Session → Prop}
    (step : ∀ {s events s'}, Effect orderly s events s' → P s → P s')
    (chain : Effects orderly s events s') (start : P s) : P s' := by
  induction chain with
  | nil => exact start
  | snoc before last ih => exact step last ih

end Effects

end TransactionalMemory
