import TransactionalMemory.Proofs.Admission.Waiting
import TransactionalMemory.Proofs.Session.Renumbering
import TransactionalMemory.Proofs.Transaction.Blindness

/-! # Read-only transactions are invisible

    Take a run under optimistic admission that gives up no slot, and leave out
    all that its read-only transactions do. The idea is to go through both runs
    side by side:

    1. The two sessions mirror each other: the regions differ in the gate, the
       collector and two counters, the read-write transactions in their numbers
       and in the epoch that they pin, and nothing waits to be released.
    2. A step of a read-only transaction changes nothing else, so the shorter run
       need not take it.
    3. A step of a read-write transaction does not look at what differs, so it is
       answered the same in both runs. -/

namespace TransactionalMemory

namespace Session

variable {s s' start : Session} {names : Renumbering} {h k : Handle} {t : Transaction}
  {o : Option Transaction} {r r' : Region} {e : Nat}

/-! ## Sessions that mirror each other -/

/-- Whoever is open after a transaction is let in is that transaction, or was open before. -/
theorem open?_enter_cases {mode : Mode} (ho : (s.enter mode).2.open? h = some t) :
    t = (s.region.enter mode).1 ∨ s.open? h = some t := by
  by_cases hnew : h = s.transactions.size
  · rw [hnew] at ho
    exact .inl (Option.some.inj (ho.symm.trans (s.open?_enter_self mode)))
  · rw [s.open?_enter_ne mode hnew] at ho
    exact .inr ho

/-- The second session is the first one without its read-only transactions. -/
structure Mirrors (names : Renumbering) (s s' : Session) : Prop where
  proper : names.Proper
  length : names.length = s.transactions.size
  next : names.next = s'.transactions.size
  region : s'.region = s.region.under s'.region
  left : s.region.AtEase
  right : s'.region.AtEase
  writers : ∀ h k, names.number? h = some k → ∃ e, s'.open? k = (s.open? h).map (·.inEpoch e)
  readers : ∀ h t, s.open? h = some t → names.number? h = none → t.Unlogged
  unfreed : ∀ h t, s.open? h = some t → t.freed = []

namespace Mirrors

/-- A read-only transaction may go on or end, as long as the region changes in
    nothing that matters. -/
theorem put_reader (hm : Mirrors names s s') (ho : s.open? h = some t)
    (hnone : names.number? h = none) (hunlogged : ∀ t', o = some t' → t'.Unlogged)
    (hr : r = s.region.under r) (hease : r.AtEase) : Mirrors names (s.put h o r) s' where
  proper := hm.proper
  length := by
    rw [size_put]
    exact hm.length
  next := hm.next
  region := by
    rw [region_put, hr, Region.under_under]
    exact hm.region
  left := hease
  right := hm.right
  writers := by
    intro j k hk
    have hne : j ≠ h := by
      rintro rfl
      rw [hnone] at hk
      cases hk
    rw [open?_put_ne hne]
    exact hm.writers j k hk
  readers := by
    intro j u hu hj
    by_cases hjh : j = h
    · rw [hjh, open?_put_self ho] at hu
      exact hunlogged u hu
    · rw [open?_put_ne hjh] at hu
      exact hm.readers j u hu hj
  unfreed := by
    intro j u hu
    by_cases hjh : j = h
    · rw [hjh, open?_put_self ho] at hu
      exact (hunlogged u hu).freed
    · rw [open?_put_ne hjh] at hu
      exact hm.unfreed j u hu

/-- A read-write transaction goes on or ends in both sessions. -/
theorem put_writer (hm : Mirrors names s s') (ho : s.open? h = some t)
    (hk : names.number? h = some k) (hfreed : ∀ t', o = some t' → t'.freed = [])
    (hr : r' = r.under r') (hease : r.AtEase) (hease' : r'.AtEase) (e : Nat) :
    Mirrors names (s.put h o r) (s'.put k (o.map (·.inEpoch e)) r') := by
  obtain ⟨e₀, hsame⟩ := hm.writers h k hk
  rw [ho, Option.map_some] at hsame
  have hothers : ∀ j, j ≠ h → (s.put h o r).open? j = s.open? j := fun j hj => open?_put_ne hj
  constructor
  · exact hm.proper
  · rw [size_put]
    exact hm.length
  · rw [size_put]
    exact hm.next
  · exact hr
  · exact hease
  · exact hease'
  · intro j i hi
    by_cases hjh : j = h
    · subst hjh
      cases hk.symm.trans hi
      rw [open?_put_self ho, open?_put_self hsame]
      exact ⟨e, rfl⟩
    · -- Another transaction has another number in the second session too.
      have hne : i ≠ k := by
        rintro rfl
        exact hjh (hm.proper.once j h i hi hk)
      rw [hothers j hjh, open?_put_ne hne]
      exact hm.writers j i hi
  · intro j u hu hj
    have hjh : j ≠ h := by
      rintro rfl
      rw [hk] at hj
      cases hj
    rw [hothers j hjh] at hu
    exact hm.readers j u hu hj
  · intro j u hu
    by_cases hjh : j = h
    · rw [hjh, open?_put_self ho] at hu
      exact hfreed u hu
    · rw [hothers j hjh] at hu
      exact hm.unfreed j u hu

/-- Whoever has a new number has begun. -/
theorem ne_size (hm : Mirrors names s s') (hk : names.number? h = some k) :
    h ≠ s.transactions.size := by
  rintro rfl
  rw [Renumbering.number?_of_length_le (Nat.le_of_eq hm.length)] at hk
  cases hk

/-- A transaction that is not open has no open counterpart. -/
theorem closed (hm : Mirrors names s s') (ho : s.open? h = none) (hk : names.number? h = some k) :
    s'.open? k = none := by
  obtain ⟨e, hsame⟩ := hm.writers h k hk
  rw [ho] at hsame
  exact hsame

end Mirrors

/-! ## One step -/

/-- What a step of the first session comes to in the second one: nothing if it is
    one of a read-only transaction, else a step that tells the same. -/
def Follows (names : Renumbering) (s s' : Session) (operation : Operation) : Prop :=
  let names' := names.after operation (s.step operation).1
  match names.operation? operation with
  | none => Mirrors names' (s.step operation).2 s'
  | some kept =>
    s'.tells kept = (names'.answer (s.step operation).1, (s.tells operation).2) ∧
      Mirrors names' (s.step operation).2 (s'.step kept).2

namespace Mirrors

/-- An operation that looks at nothing of what differs does the same in both
    sessions, or nothing that matters, if its transaction is read-only. -/
theorem access {α : Type} {operation : Transaction → Region → Outcome α}
    (hblind : Transaction.Blind operation) (hpassive : Transaction.Passive operation)
    (hm : Mirrors names s s') (h : Handle)
    (hfreed : ∀ t, s.open? h = some t →
      (operation t s.region).transaction.freed = t.freed) :
    (names.number? h = none → Mirrors names (s.access h operation).2 s') ∧
      ∀ k, names.number? h = some k →
        (s'.access k operation).1 = (s.access h operation).1 ∧
          Mirrors names (s.access h operation).2 (s'.access k operation).2 := by
  cases ho : s.open? h with
  | none =>
    have hstays : s.access h operation = (none, s) := by
      unfold Session.access
      rw [ho]
    rw [hstays]
    constructor
    · intro _
      exact hm
    · intro k hk
      have hstays' : s'.access k operation = (none, s') := by
        unfold Session.access
        rw [hm.closed ho hk]
      rw [hstays']
      exact ⟨rfl, hm⟩
  | some t =>
    rw [access_of_open _ ho]
    constructor
    · intro hnone
      have hunlogged := hm.readers h t ho hnone
      obtain ⟨hregion, htransaction⟩ := hpassive t s.region hunlogged.readOnly
      have hput : ∀ u : Transaction, u.Unlogged →
          Mirrors names (s.put h (some u) s.region) s' := by
        intro u hu
        apply hm.put_reader ho hnone _ rfl hm.left
        rintro t' ⟨⟩
        exact hu
      dsimp only
      rw [hregion]
      rcases htransaction with hsame | hdoomed
      · rw [hsame]
        exact hput t hunlogged
      · rw [hdoomed]
        exact hput t.doom hunlogged.doom
    · intro k hk
      obtain ⟨e, hsame⟩ := hm.writers h k hk
      rw [ho, Option.map_some] at hsame
      rw [access_of_open _ hsame, hm.region, hblind t s.region e s'.region]
      -- What the operation does not look at, it does not change.
      have hkept : operation t s.region = (operation t s.region).under t.epoch s.region :=
        hblind t s.region t.epoch s.region
      have hregion : (operation t s.region).region =
          (operation t s.region).region.under s.region := congrArg Outcome.region hkept
      refine ⟨rfl, hm.put_writer ho hk ?_ rfl ?_ ?_ e⟩
      · rintro t' ⟨⟩
        rw [hfreed t ho]
        exact hm.unfreed h t ho
      · rw [hregion]
        exact ⟨hm.left.optimistic, hm.left.pending⟩
      · exact ⟨hm.right.optimistic, hm.right.pending⟩

/-! ### Beginning -/

/-- The ids are given out alike. -/
theorem withIds (hm : Mirrors names s s') (ids : IdSource) :
    Mirrors names { s with region := { s.region with ids } }
      { s' with region := { s'.region with ids } } where
  proper := hm.proper
  length := hm.length
  next := hm.next
  region := by
    show { s'.region with ids } = { s.region.under s'.region with ids }
    rw [← hm.region]
  left := ⟨hm.left.optimistic, hm.left.pending⟩
  right := ⟨hm.right.optimistic, hm.right.pending⟩
  writers := hm.writers
  readers := hm.readers
  unfreed := hm.unfreed

/-- A read-only transaction begins in the first session alone. -/
theorem enter_reader (hm : Mirrors names s s') :
    Mirrors (names ++ [none]) (s.enter .readOnly).2 s' where
  proper := hm.proper.append_none
  length := by simp [enter, hm.length]
  next := (Renumbering.next_append names none).trans hm.next
  region := hm.region
  left := hm.left.enter .readOnly
  right := hm.right
  writers := by
    intro h k hk
    rw [Renumbering.number?_append_none] at hk
    rw [s.open?_enter_ne .readOnly (hm.ne_size hk)]
    exact hm.writers h k hk
  readers := by
    intro h t ho hnone
    rw [Renumbering.number?_append_none] at hnone
    rcases open?_enter_cases ho with rfl | hold
    · exact ⟨rfl, rfl, rfl, rfl, rfl⟩
    · exact hm.readers h t hold hnone
  unfreed := by
    intro h t ho
    rcases open?_enter_cases ho with rfl | hold
    · rfl
    · exact hm.unfreed h t hold

/-- A read-write transaction begins in both sessions. -/
theorem enter_writer (hm : Mirrors names s s') (id : TransactionId) :
    Mirrors (names ++ [some names.next]) (s.enter (.readWrite id)).2
      (s'.enter (.readWrite id)).2 where
  proper := hm.proper.append_next
  length := by simp [enter, hm.length]
  next := by
    rw [Renumbering.next_append, hm.next]
    simp [enter]
  region := by
    have hsame := congrArg (Region.under · (s'.region.enter (.readWrite id)).2) hm.region
    exact hsame
  left := hm.left.enter _
  right := hm.right.enter _
  writers := by
    intro h k hk
    rw [Renumbering.number?_append] at hk
    split at hk
    next hlast =>
      cases hk
      rw [hm.length] at hlast
      rw [hlast, hm.next]
      exact ⟨s'.region.collector.epoch, by
        rw [show s.transactions.size = (s.enter (.readWrite id)).1 from rfl, open?_enter_self,
          show s'.transactions.size = (s'.enter (.readWrite id)).1 from rfl, open?_enter_self]
        rfl⟩
    next =>
      have hlt := hm.proper.lt_next h k hk
      rw [hm.next] at hlt
      rw [s.open?_enter_ne _ (hm.ne_size hk), s'.open?_enter_ne _ (Nat.ne_of_lt hlt)]
      exact hm.writers h k hk
  readers := by
    intro h t ho hnone
    rw [Renumbering.number?_append] at hnone
    split at hnone
    next => cases hnone
    next hother =>
      rw [hm.length] at hother
      rw [s.open?_enter_ne _ hother] at ho
      exact hm.readers h t ho hnone
  unfreed := by
    intro h t ho
    rcases open?_enter_cases ho with rfl | hold
    · rfl
    · exact hm.unfreed h t hold

theorem begin (hm : Mirrors names s s') (readOnly : Bool) :
    Follows names s s' (.begin readOnly) := by
  have hgate := Gate.admits_optimistic hm.left.optimistic readOnly
  have hgate' := Gate.admits_optimistic hm.right.optimistic readOnly
  cases readOnly with
  | true =>
    have hbegin : s.begin true = (.started s.transactions.size, (s.enter .readOnly).2) := by
      unfold Session.begin
      rw [if_pos hgate]
      rfl
    have hstep : s.step (.begin true) =
        (.begun (.started s.transactions.size), (s.enter .readOnly).2) := by
      simp only [step, hbegin]
    unfold Follows
    rw [hstep]
    exact hm.enter_reader
  | false =>
    have hleft : names.operation? (.begin false) = some (.begin false) := rfl
    have hids : s'.region.ids = s.region.ids := by
      rw [hm.region]
      rfl
    cases hmint : s.region.ids.mint? with
    | none =>
      have hstep : s.step (.begin false) = (.begun (.refused .idsExhausted), s) := by
        simp [step, Session.begin, hgate, Region.identify?, hmint]
      have hstep' : s'.step (.begin false) = (.begun (.refused .idsExhausted), s') := by
        simp [step, Session.begin, hgate', Region.identify?, hids, hmint]
      unfold Follows tells
      rw [hstep, hleft]
      dsimp only [Renumbering.after]
      rw [hstep']
      exact ⟨rfl, hm⟩
    | some minted =>
      obtain ⟨id, ids⟩ := minted
      have hstep : s.step (.begin false) = (.begun (.started s.transactions.size),
          (enter { s with region := { s.region with ids } } (.readWrite id)).2) := by
        simp [step, Session.begin, hgate, Region.identify?, hmint]
        rfl
      have hstep' : s'.step (.begin false) = (.begun (.started s'.transactions.size),
          (enter { s' with region := { s'.region with ids } } (.readWrite id)).2) := by
        simp [step, Session.begin, hgate', Region.identify?, hids, hmint]
        rfl
      have hnumber : Renumbering.number? (names ++ [some names.next]) s.transactions.size =
          some s'.transactions.size := by
        rw [Renumbering.number?_append, if_pos hm.length.symm, hm.next]
      have htells := tells_of_begun hstep (open?_enter_self _ _)
      have htells' := tells_of_begun hstep' (open?_enter_self _ _)
      unfold Follows
      rw [htells, hstep, hleft]
      dsimp only [Renumbering.after]
      simp only [Bool.false_eq_true, if_false]
      rw [htells', hstep']
      constructor
      · rw [Renumbering.answer, hnumber]
        rfl
      · exact (hm.withIds ids).enter_writer id

/-! ### Going on and ending -/

/-- An operation of a transaction, which begins no other one. -/
theorem follows {operation : Operation} (hop : operation.handle? = some h)
    (hreader : names.number? h = none → Mirrors names (s.step operation).2 s')
    (hwriter : ∀ k, names.number? h = some k →
      (s'.step (operation.doneFor k)).1 = (s.step operation).1 ∧
        Mirrors names (s.step operation).2 (s'.step (operation.doneFor k)).2) :
    Follows names s s' operation := by
  unfold Follows
  dsimp only
  rw [Renumbering.after_of_handle hop, Renumbering.answer_of_handle hop, tells_of_handle hop]
  unfold Renumbering.operation?
  rw [hop]
  dsimp only
  cases hnumber : names.number? h with
  | none => exact hreader hnumber
  | some k =>
    obtain ⟨hsame, hmirrors⟩ := hwriter k hnumber
    exact ⟨Prod.ext hsame (tells_of_handle (Operation.handle?_doneFor hop k)), hmirrors⟩

/-- An operation of a transaction that is not open does nothing in either session. -/
theorem follows_of_closed {operation : Operation} (hm : Mirrors names s s')
    (hop : operation.handle? = some h) (ho : s.open? h = none) : Follows names s s' operation := by
  have hstays := step_of_closed hop ho
  apply follows hop
  · intro _
    rw [hstays]
    exact hm
  · intro k hk
    have hstays' := step_of_closed (Operation.handle?_doneFor hop k) (hm.closed ho hk)
    rw [hstays, hstays']
    exact ⟨unanswered_doneFor operation k, hm⟩

/-- The end of a transaction where nothing waits to be released. -/
theorem step_finish_of_idle (ho : s.open? h = some t)
    (hpending : (t.conclusion s.region
      (!t.doomed && t.observationsHold s.region)).collector.pending = 0) :
    s.step (.finish h) = (.ended (some (!t.doomed && t.observationsHold s.region)),
      s.put h none (t.conclusion s.region (!t.doomed && t.observationsHold s.region))) := by
  simp only [Session.step, finish_of_open ho, Region.collect_of_idle hpending]
  rfl

/-- A transaction ends that gives up no slot. -/
theorem ends (hm : Mirrors names s s') (ho : s.open? h = some t) (committed : Bool)
    (hallocated : committed = false → t.allocated = []) :
    (t.conclusion s.region committed).AtEase ∧
      (names.number? h = none →
        Mirrors names (s.put h none (t.conclusion s.region committed)) s') ∧
      ∀ k e, names.number? h = some k →
        ((t.inEpoch e).conclusion s'.region committed).AtEase ∧
          Mirrors names (s.put h none (t.conclusion s.region committed))
            (s'.put k none ((t.inEpoch e).conclusion s'.region committed)) := by
  have hfreed := hm.unfreed h t ho
  obtain ⟨hregion, hpending, hpolicy⟩ :=
    Transaction.conclusion_eq_under (r := s.region) hfreed hallocated
  have hease : (t.conclusion s.region committed).AtEase :=
    ⟨hpolicy.trans hm.left.optimistic, hpending.trans hm.left.pending⟩
  refine ⟨hease, ?_, ?_⟩
  · intro hnone
    have hunlogged := hm.readers h t ho hnone
    apply hm.put_reader (o := none) ho hnone nofun _ hease
    rw [hunlogged.touched] at hregion
    exact hregion
  · intro k e hk
    obtain ⟨-, hpending', hpolicy'⟩ :=
      Transaction.conclusion_eq_under (t := t.inEpoch e) (r := s'.region) hfreed hallocated
    have hease' : ((t.inEpoch e).conclusion s'.region committed).AtEase :=
      ⟨hpolicy'.trans hm.right.optimistic, hpending'.trans hm.right.pending⟩
    refine ⟨hease', hm.put_writer (o := none) ho hk nofun ?_ hease hease' e⟩
    rw [hm.region]
    exact Transaction.conclusion_inEpoch hfreed hallocated e s'.region

theorem finish (hm : Mirrors names s s') (hkeeps : s.KeepsSlots (.finish h)) :
    Follows names s s' (.finish h) := by
  cases ho : s.open? h with
  | none => exact hm.follows_of_closed rfl ho
  | some t =>
    have hallocated : (!t.doomed && t.observationsHold s.region) = false → t.allocated = [] := by
      intro hfalse
      have hended : (s.finish h).1 = some false := by
        rw [finish_of_open ho, hfalse]
      exact hkeeps hended t ho
    obtain ⟨hease, hread, hwrite⟩ := hm.ends ho _ hallocated
    have hstep := step_finish_of_idle ho hease.pending
    apply follows rfl
    · intro hnone
      rw [hstep]
      exact hread hnone
    · intro k hk
      obtain ⟨e, hsame⟩ := hm.writers h k hk
      rw [ho, Option.map_some] at hsame
      -- The verdict does not look at what differs.
      have hverdict : (t.inEpoch e).observationsHold s'.region = t.observationsHold s.region := by
        rw [hm.region]
        rfl
      have hdoomed : (t.inEpoch e).doomed = t.doomed := rfl
      obtain ⟨hease', hmirrors⟩ := hwrite k e hk
      have hstep' := step_finish_of_idle hsame (by rw [hverdict]; exact hease'.pending)
      dsimp only [Operation.doneFor]
      rw [hstep, hstep', hverdict, hdoomed]
      exact ⟨rfl, hmirrors⟩

theorem abandon (hm : Mirrors names s s') (hkeeps : s.KeepsSlots (.abandon h)) :
    Follows names s s' (.abandon h) := by
  cases ho : s.open? h with
  | none => exact hm.follows_of_closed rfl ho
  | some t =>
    obtain ⟨-, hread, hwrite⟩ := hm.ends ho false fun _ => hkeeps t ho
    have hstep : ∀ {s : Session} {k u}, s.open? k = some u →
        s.step (.abandon k) = (.nothing, s.put k none (u.conclusion s.region false)) := by
      intro s k u hu
      simp only [step, Session.abandon, hu]
      rfl
    apply follows rfl
    · intro hnone
      rw [hstep ho]
      exact hread hnone
    · intro k hk
      obtain ⟨e, hsame⟩ := hm.writers h k hk
      rw [ho, Option.map_some] at hsame
      dsimp only [Operation.doneFor]
      rw [hstep ho, hstep hsame]
      exact ⟨rfl, (hwrite k e hk).2⟩

theorem abort (hm : Mirrors names s s') (h : Handle) : Follows names s s' (.abort h) := by
  cases ho : s.open? h with
  | none => exact hm.follows_of_closed rfl ho
  | some t =>
    have hstep : ∀ {s : Session} {k u}, s.open? k = some u →
        s.step (.abort k) = (.nothing, s.put k (some u.doom) s.region) := by
      intro s k u hu
      simp only [step, Session.abort, hu]
      rfl
    apply follows rfl
    · intro hnone
      rw [hstep ho]
      apply hm.put_reader ho hnone _ rfl hm.left
      rintro t' ⟨⟩
      exact (hm.readers h t ho hnone).doom
    · intro k hk
      obtain ⟨e, hsame⟩ := hm.writers h k hk
      rw [ho, Option.map_some] at hsame
      dsimp only [Operation.doneFor]
      rw [hstep ho, hstep hsame]
      refine ⟨rfl, hm.put_writer ho hk ?_ hm.region hm.left hm.right e⟩
      rintro t' ⟨⟩
      exact hm.unfreed h t ho

/-- A read, write, allocation or free. -/
theorem follows_access {α : Type} {operation : Operation}
    {inner : Transaction → Region → Outcome α} (hm : Mirrors names s s')
    (hop : operation.handle? = some h) (wrap : Option (Except Failure α) → Answer)
    (hstep : ∀ (s : Session) k, s.step (operation.doneFor k) =
      (wrap (s.access k inner).1, (s.access k inner).2))
    (hblind : Transaction.Blind inner) (hpassive : Transaction.Passive inner)
    (hfreed : ∀ t, s.open? h = some t → (inner t s.region).transaction.freed = t.freed) :
    Follows names s s' operation := by
  obtain ⟨hread, hwrite⟩ := hm.access hblind hpassive h hfreed
  have hself := hstep s h
  rw [Operation.doneFor_self hop] at hself
  apply follows hop
  · intro hnone
    rw [hself]
    exact hread hnone
  · intro k hk
    obtain ⟨hvalue, hmirrors⟩ := hwrite k hk
    rw [hself, hstep s' k, hvalue]
    exact ⟨rfl, hmirrors⟩

/-- So every step that gives up no slot is followed by a step that tells the same,
    or by none. -/
theorem step (hm : Mirrors names s s') {operation : Operation} (hkeeps : s.KeepsSlots operation) :
    Follows names s s' operation := by
  cases operation with
  | begin readOnly => exact hm.begin readOnly
  | read h a length =>
    exact hm.follows_access rfl .bytes (fun _ _ => rfl) (Transaction.blind_read a length)
      (Transaction.passive_read a length) fun t _ => (t.unslotted_read s.region a length).freed
  | write h a bytes =>
    exact hm.follows_access rfl .done (fun _ _ => rfl) (Transaction.blind_write a bytes)
      (Transaction.passive_write a bytes) fun t _ => (t.unslotted_write s.region a bytes).freed
  | alloc h size memory =>
    exact hm.follows_access rfl .allocated (fun _ _ => rfl) (Transaction.blind_alloc size memory)
      (Transaction.passive_alloc size memory) fun t _ => t.freed_alloc s.region size memory
  | free h a =>
    have hfreed : ∀ t, s.open? h = some t →
        (t.free s.region a).transaction.freed = t.freed := by
      intro t ho
      apply Transaction.freed_of_failed_free
      intro hok
      apply hkeeps
      rw [free, access_of_open _ ho, hok]
    exact hm.follows_access rfl .done (fun _ _ => rfl) (Transaction.blind_free a)
      (Transaction.passive_free a) hfreed
  | abort h => exact hm.abort h
  | finish h => exact hm.finish hkeeps
  | abandon h => exact hm.abandon hkeeps
  | collect =>
    have hstep : ∀ {s : Session}, s.region.collector.pending = 0 →
        s.step .collect = (.released 0, s) := by
      intro s hpending
      simp only [Session.step, Session.collect, Region.collect_of_idle hpending]
    have hleft : names.operation? .collect = some .collect := rfl
    unfold Follows tells
    rw [hstep hm.left.pending, hleft]
    dsimp only [Renumbering.after]
    rw [hstep hm.right.pending]
    exact ⟨rfl, hm⟩

end Mirrors

/-! ## Whole runs -/

/-- The two runs go on side by side. -/
theorem Mirrors.run (hm : Mirrors names s s') {operations : List Operation}
    (hkeeps : s.KeepsAllSlots operations) :
    s'.told ((s.withoutReaders names operations).map Prod.fst) =
        (s.withoutReaders names operations).map Prod.snd ∧
      Mirrors (s.renumbering names operations) (s.run operations).2
        (s'.run ((s.withoutReaders names operations).map Prod.fst)).2 := by
  induction operations generalizing names s s' with
  | nil => exact ⟨rfl, hm⟩
  | cons operation rest ih =>
    obtain ⟨hfirst, hrest⟩ := hkeeps
    have hstep := hm.step hfirst
    unfold Follows at hstep
    unfold withoutReaders
    dsimp only
    cases hoperation : names.operation? operation with
    | none =>
      rw [hoperation] at hstep
      exact ih hstep hrest
    | some kept =>
      rw [hoperation] at hstep
      obtain ⟨htells, hafter⟩ := hstep
      obtain ⟨htold, hmirrors⟩ := ih hafter hrest
      constructor
      · rw [List.map_cons, List.map_cons, told, htells, htold]
      · exact hmirrors

/-- A newly created session mirrors itself. -/
theorem mirrors_of_create {settings : Settings} (hcreate : create settings = .ok start)
    (hoptimistic : settings.admission = .optimistic) : Mirrors [] start start := by
  obtain ⟨hnew, hnone⟩ := new_of_create hcreate
  have hnumber : ∀ h, Renumbering.number? [] h = none :=
    fun h => Renumbering.number?_of_length_le (Nat.zero_le h)
  have hsize : start.transactions.size = 0 := by
    rw [hnone]
    rfl
  have hease : start.region.AtEase := by
    constructor
    · rw [← hoptimistic]
      exact (Lobby.kept_of_create hcreate).policy_eq
    · rw [hnew.collector_eq]
  constructor
  · constructor
    · intro h k hk
      cases (hnumber h).symm.trans hk
    · intro h _ k hk
      cases (hnumber h).symm.trans hk
  · exact hsize.symm
  · exact hsize.symm
  · rfl
  · exact hease
  · exact hease
  · intro h k hk
    cases (hnumber h).symm.trans hk
  · intro h t ho
    cases (open?_of_create hcreate h).symm.trans ho
  · intro h t ho
    cases (open?_of_create hcreate h).symm.trans ho

/-- What the read-write transactions can tell of a session is the same in both. -/
structure SameToWriters (names : Renumbering) (s s' : Session) : Prop where
  /-- Both copies of all words, and their controls. -/
  segments : s'.region.segments = s.region.segments
  slots : s'.region.table = s.region.table
  bytesInUse : s'.region.bytesInUse = s.region.bytesInUse
  ids : s'.region.ids = s.region.ids
  /-- An open read-write transaction has the same id and the same logs; it may
      pin another epoch. -/
  transactions : ∀ h k, names.number? h = some k →
    ∃ e, s'.open? k = (s.open? h).map ({ · with epoch := e })

theorem Mirrors.same (hm : Mirrors names s s') : SameToWriters names s s' where
  segments := by
    rw [hm.region]
    rfl
  slots := by
    rw [hm.region]
    rfl
  bytesInUse := by
    rw [hm.region]
    rfl
  ids := by
    rw [hm.region]
    rfl
  transactions := hm.writers

/-- In a run under optimistic admission that gives up no slot, the read-only
    transactions are invisible: without them, all other operations tell the
    same, and everything but the state of reclamation is the same in the end. -/
theorem run_without_readers {settings : Settings} (hcreate : create settings = .ok start)
    (hoptimistic : settings.admission = .optimistic) {operations : List Operation}
    (hkeeps : start.KeepsAllSlots operations) :
    start.told ((start.withoutReaders [] operations).map Prod.fst) =
        (start.withoutReaders [] operations).map Prod.snd ∧
      SameToWriters (start.renumbering [] operations) (start.run operations).2
        (start.run ((start.withoutReaders [] operations).map Prod.fst)).2 := by
  obtain ⟨htold, hmirrors⟩ := (mirrors_of_create hcreate hoptimistic).run hkeeps
  exact ⟨htold, hmirrors.same⟩

/-- A reader between two writers: it reads, tries to write, and commits. One of
    the writers meets a conflict and does not commit. -/
def observedWriters : List Operation :=
  [.begin false, .begin true, .read 1 Region.start 8,
    .write 0 Region.start [1, 2, 3, 4, 5, 6, 7, 8], .begin false, .read 1 Region.start 8,
    .read 2 Region.start 8, .write 1 Region.start [8, 7, 6, 5, 4, 3, 2, 1], .finish 0,
    .finish 1, .finish 2]

/-- Without the reader, the second writer is transaction 1. -/
theorem run_without_readers_between_writers :
    ∃ start, create { size := 8, align := 8 } = .ok start ∧
      start.KeepsAllSlots observedWriters ∧
      (start.withoutReaders [] observedWriters).map Prod.fst =
        [.begin false, .write 0 Region.start [1, 2, 3, 4, 5, 6, 7, 8], .begin false,
          .read 1 Region.start 8, .finish 0, .finish 1] ∧
      start.told ((start.withoutReaders [] observedWriters).map Prod.fst) =
        (start.withoutReaders [] observedWriters).map Prod.snd ∧
      SameToWriters (start.renumbering [] observedWriters) (start.run observedWriters).2
        (start.run ((start.withoutReaders [] observedWriters).map Prod.fst)).2 := by
  refine ⟨_, rfl, by decide +kernel, by decide +kernel, ?_⟩
  exact @run_without_readers _ { size := 8, align := 8 } rfl rfl observedWriters
    (by decide +kernel)

end Session

end TransactionalMemory