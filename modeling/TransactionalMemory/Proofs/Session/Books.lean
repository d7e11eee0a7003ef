import TransactionalMemory.Proofs.Session.Admission

/-! # The books of a region

    The ids given out, the gate, and the numbers of commits and of aborts are the
    books of a region. Only the beginning and the end of a transaction make an
    entry there: one takes an id and passes the gate, the other leaves it and is
    counted. What transactions do in between goes unbooked.

    So every transaction is counted once, when it ends, and as a commit if and
    only if its end has said so. This needs no invariant of the words, the slots
    or the logs, and holds of every run. -/

namespace TransactionalMemory

/-! ## What leaves the books alone -/

namespace Region

variable {r r' r'' : Region}

/-- The two regions have given out the same ids, and have the same gate and the
    same counters. -/
structure SameBooks (r r' : Region) : Prop where
  ids : r'.ids = r.ids
  gate : r'.gate = r.gate
  commits : r'.commits = r.commits
  aborts : r'.aborts = r.aborts

theorem SameBooks.refl (r : Region) : r.SameBooks r := ⟨rfl, rfl, rfl, rfl⟩

theorem SameBooks.trans (h : r.SameBooks r') (h' : r'.SameBooks r'') : r.SameBooks r'' :=
  ⟨h'.ids.trans h.ids, h'.gate.trans h.gate, h'.commits.trans h.commits,
    h'.aborts.trans h.aborts⟩

theorem SameButWords.sameBooks (h : r.SameButWords r') : r.SameBooks r' := by
  rw [h.rest]
  exact ⟨rfl, rfl, rfl, rfl⟩

theorem Rearranges.sameBooks (h : r.Rearranges r') : r.SameBooks r' := by
  rw [h.rest]
  exact ⟨rfl, rfl, rfl, rfl⟩

theorem sameBooks_allocate? {size i : Nat} (h : r.allocate? size = some (i, r')) :
    r.SameBooks r' := by
  obtain ⟨table, -, rfl⟩ := allocate?_inv h
  exact ⟨rfl, rfl, rfl, rfl⟩

theorem sameBooks_foldl (r : Region) (batch : List Retirement) :
    r.SameBooks (batch.foldl afterWait r) := by
  induction batch generalizing r with
  | nil => exact .refl r
  | cons e rest ih =>
    refine .trans ?_ (ih _)
    unfold afterWait
    split
    · exact ⟨rfl, rfl, rfl, rfl⟩
    · exact ⟨rfl, rfl, rfl, rfl⟩

theorem sameBooks_collect (r : Region) : r.SameBooks r.collect.2 := by
  have hbatch := sameBooks_foldl { r with collector := r.collector.takeExpired.2 }
    r.collector.takeExpired.1
  exact ⟨hbatch.ids, hbatch.gate, hbatch.commits, hbatch.aborts⟩

end Region

namespace Transaction

variable {t : Transaction} {r : Region} {α : Type}

/-- The operation leaves the mode of the transaction and the books as they were. -/
structure Unbooked (t : Transaction) (r : Region) (o : Outcome α) : Prop where
  mode_eq : o.transaction.mode = t.mode
  books : r.SameBooks o.region

theorem unbooked_refuse (t : Transaction) (r : Region) :
    t.Unbooked r (t.refuse r : Outcome α) := ⟨rfl, .refl r⟩

theorem unbooked_fail (t : Transaction) (r : Region) (failure : Failure) :
    t.Unbooked r (t.fail r failure : Outcome α) := ⟨rfl, .refl r⟩

theorem unbooked_ofPass (a : Address) (first : WordRef) {pass : Pass α}
    (h : pass.transaction.mode = t.mode) : t.Unbooked r (ofPass r a first pass) := by
  unfold ofPass
  dsimp only
  split
  · exact ⟨h, rfl, rfl, rfl, rfl⟩
  · exact ⟨h, rfl, rfl, rfl, rfl⟩

theorem mode_readWords (t : Transaction) (s : Segment) (n first count : Nat)
    (soFar : Array UInt8) : (t.readWords s n first count soFar).transaction.mode = t.mode := by
  apply keeps_readWords (P := fun u => u.mode = t.mode)
  · simp
  · rfl

theorem mode_writeWords (t : Transaction) (s : Segment) (n wordSize first count : Nat)
    (bytes : List UInt8) :
    (t.writeWords s n wordSize first count bytes).transaction.mode = t.mode := by
  apply keeps_writeWords (P := fun u => u.mode = t.mode)
  · simp
  · rfl

theorem unbooked_read (t : Transaction) (r : Region) (a : Address) (length : Nat) :
    t.Unbooked r (t.read r a length) := by
  cases t.read_cases r a length with
  | refused doomed heq => rw [heq]; exact unbooked_refuse ..
  | failed undoomed why heq => rw [heq]; exact unbooked_fail ..
  | shared undoomed readOnly resolved found heq => rw [heq]; exact ⟨rfl, .refl r⟩
  | passed undoomed readWrite resolved found heq =>
    rw [heq]
    exact unbooked_ofPass _ _ (mode_readWords ..)

theorem unbooked_write (t : Transaction) (r : Region) (a : Address) (bytes : List UInt8) :
    t.Unbooked r (t.write r a bytes) := by
  cases t.write_cases r a bytes with
  | refused doomed heq => rw [heq]; exact unbooked_refuse ..
  | failed undoomed why heq => rw [heq]; exact unbooked_fail ..
  | passed undoomed readWrite resolved found heq =>
    rw [heq]
    exact unbooked_ofPass _ _ (mode_writeWords ..)

theorem unbooked_alloc (t : Transaction) (r : Region) (size : Nat) (memory : Bool) :
    t.Unbooked r (t.alloc r size memory) := by
  cases t.alloc_cases r size memory with
  | refused doomed heq => rw [heq]; exact unbooked_refuse ..
  | failed undoomed why heq => rw [heq]; exact unbooked_fail ..
  | scarce undoomed readWrite attempt heq =>
    rw [heq]
    obtain ⟨table, -, rfl⟩ := (Region.fails_of_attempt attempt).inv
    exact ⟨rfl, rfl, rfl, rfl, rfl⟩
  | granted undoomed readWrite whole enough found heq =>
    rw [heq]
    exact ⟨rfl, Region.sameBooks_allocate? found⟩

theorem unbooked_free (t : Transaction) (r : Region) (a : Address) :
    t.Unbooked r (t.free r a) := by
  cases t.free_cases r a with
  | refused doomed heq => rw [heq]; exact unbooked_refuse ..
  | failed undoomed why heq => rw [heq]; exact unbooked_fail ..
  | marked undoomed readWrite freeable live heq => rw [heq]; exact ⟨rfl, rfl, rfl, rfl, rfl⟩

/-- The end of a transaction counts it, as a commit or as an abort. -/
theorem counts_conclusion (t : Transaction) (r : Region) (committed : Bool) :
    (t.conclusion r committed).commits = r.commits + (if committed then 1 else 0) ∧
      (t.conclusion r committed).aborts = r.aborts + if committed then 0 else 1 := by
  have hbooks : r.SameBooks (t.rearranged r committed) :=
    (r.settleWords_spec t.id committed t.touched).1.sameBooks.trans
      (t.rearranges_rearranged r committed).sameBooks
  cases committed with
  | true => simp [conclusion, unpin, commit_eq, hbooks.commits, hbooks.aborts]
  | false => simp [conclusion, unpin, rollback_eq, hbooks.commits, hbooks.aborts]

end Transaction

/-- Whether an operation neither begins nor ends a transaction. -/
def Operation.isUnbooked : Operation → Bool
  | .begin _ | .finish _ | .abandon _ => false
  | .read .. | .write .. | .alloc .. | .free .. | .abort _ | .collect => true

/-- The ends that a history tells of, the latest one first. -/
def History.ends (hist : History) : List (Handle × Bool) :=
  hist.filterMap fun
    | .ended h committed => some (h, committed)
    | .began _ | .accessed _ _ => none

/-! ## Who is open, and of which kind -/

namespace Session

variable {s s' : Session} {h k : Handle} {t t' : Transaction} {r' : Region} {readOnly : Bool}

/-- Of every transaction whether it is read-only, and `none` once it has ended. -/
def kinds (s : Session) : List (Option Bool) :=
  s.transactions.toList.map (Option.map Transaction.isReadOnly)

@[simp] theorem length_kinds (s : Session) : s.kinds.length = s.transactions.size := by
  simp [kinds]

theorem getElem?_kinds (s : Session) (h : Handle) :
    s.kinds[h]? = (s.transactions[h]?).map (Option.map Transaction.isReadOnly) := by
  simp [kinds]

theorem kinds_of_open (ho : s.open? h = some t) : s.kinds[h]? = some (some t.isReadOnly) := by
  rw [getElem?_kinds, getElem?_of_open ho]
  rfl

/-- Whoever is open has a kind. -/
theorem open_of_kinds (hk : s.kinds[h]? = some (some readOnly)) :
    ∃ t, s.open? h = some t ∧ t.isReadOnly = readOnly := by
  rw [getElem?_kinds] at hk
  obtain ⟨o, ho, hkind⟩ := Option.map_eq_some_iff.1 hk
  obtain ⟨t, rfl, hro⟩ := Option.map_eq_some_iff.1 hkind
  exact ⟨t, by rw [open?, ho]; rfl, hro⟩

/-- Whoever has begun and is not open has none any more. -/
theorem kinds_eq_none_iff : s.kinds[h]? = some none ↔
    h < s.transactions.size ∧ s.open? h = none := by
  rw [getElem?_kinds]
  by_cases hlt : h < s.transactions.size
  · cases ho : s.transactions[h] <;> simp [open?, hlt, ho]
  · simp [hlt]

@[simp] theorem kinds_put (s : Session) (h : Handle) (o : Option Transaction) (r : Region) :
    (s.put h o r).kinds = s.kinds.set h (o.map Transaction.isReadOnly) := by
  simp [kinds, put, List.map_set]

/-- A transaction that goes on in its mode is of the same kind. -/
theorem kinds_put_some (ho : s.open? h = some t) (hmode : t'.mode = t.mode) :
    (s.put h (some t') r').kinds = s.kinds := by
  have hsame : t'.isReadOnly = t.isReadOnly := by rw [Transaction.isReadOnly, hmode]; rfl
  obtain ⟨hlt, hget⟩ := List.getElem?_eq_some_iff.1 (kinds_of_open ho)
  rw [kinds_put, Option.map_some, hsame, ← hget, List.set_getElem_self]

theorem kinds_enter (s : Session) (mode : Mode) :
    (s.enter mode).2.kinds = s.kinds ++ [some mode.isReadOnly] := by
  simp [kinds, enter, Region.enter, Transaction.isReadOnly]

/-! ## Entries -/

/-- The same transactions are open, and the books are the same. -/
structure Unbooked (s s' : Session) : Prop where
  kinds : s'.kinds = s.kinds
  books : s.region.SameBooks s'.region

theorem Unbooked.refl (s : Session) : s.Unbooked s := ⟨rfl, .refl _⟩

/-- What a step enters into the books, with the end that it tells of. -/
inductive Entry (s s' : Session) : List (Handle × Bool) → Prop where
  /-- Nothing. -/
  | unbooked (same : s.Unbooked s') : Entry s s' []
  /-- A transaction has passed the gate. -/
  | began (readOnly : Bool) (admits : s.region.gate.admits readOnly = true)
      (kinds : s'.kinds = s.kinds ++ [some readOnly])
      (gate : s'.region.gate = s.region.gate.enter readOnly)
      (commits : s'.region.commits = s.region.commits)
      (aborts : s'.region.aborts = s.region.aborts) : Entry s s' []
  /-- A transaction has left the gate, and was counted. -/
  | ended {h : Handle} (readOnly : Bool) {committed : Bool}
      (isOpen : s.kinds[h]? = some (some readOnly)) (kinds : s'.kinds = s.kinds.set h none)
      (ids : s'.region.ids = s.region.ids)
      (gate : s'.region.gate = s.region.gate.leave readOnly)
      (commits : s'.region.commits = s.region.commits + if committed then 1 else 0)
      (aborts : s'.region.aborts = s.region.aborts + if committed then 0 else 1) :
      Entry s s' [(h, committed)]

/-- An operation of a transaction that leaves its mode and the books as they are. -/
theorem unbooked_access {α : Type} (h : Handle) (operation : Transaction → Region → Outcome α)
    (hunbooked : ∀ t : Transaction, t.Unbooked s.region (operation t s.region)) :
    s.Unbooked (s.access h operation).2 := by
  cases ho : s.open? h with
  | none =>
    rw [access, ho]
    exact .refl s
  | some t =>
    rw [access_of_open _ ho]
    exact ⟨kinds_put_some ho (hunbooked t).mode_eq, (hunbooked t).books⟩

/-- Whoever passes the gate is entered. -/
theorem entry_enter {mode : Mode} (hadmits : s.region.gate.admits mode.isReadOnly = true) :
    Entry s (s.enter mode).2 [] :=
  .began mode.isReadOnly hadmits (s.kinds_enter mode) rfl rfl rfl

theorem entry_begin (s : Session) (readOnly : Bool) : Entry s (s.begin readOnly).2 [] := by
  unfold begin
  split
  next hadmits =>
    split
    next => exact .unbooked (.refl s)
    next mode region hidentified =>
      obtain ⟨hregion, -⟩ := identify?_inv hidentified
      have hkind := isReadOnly_of_identify? hidentified
      have hgate : region.gate = s.region.gate := by rw [hregion]
      have hcommits : region.commits = s.region.commits := by rw [hregion]
      have haborts : region.aborts = s.region.aborts := by rw [hregion]
      -- The gate was asked for the kind that the new transaction is of.
      rw [← hkind] at hadmits
      exact .began mode.isReadOnly hadmits (kinds_enter { s with region } mode)
        (congrArg (Gate.enter · mode.isReadOnly) hgate) hcommits haborts
  next => exact .unbooked (.refl s)

/-- The end of an open transaction, and what goes unbooked after it. -/
theorem entry_conclusion (ho : s.open? h = some t) (committed : Bool)
    (hbooks : (t.conclusion s.region committed).SameBooks r') :
    Entry s (s.put h none r') [(h, committed)] := by
  obtain ⟨hcommits, haborts⟩ := t.counts_conclusion s.region committed
  exact .ended t.isReadOnly (kinds_of_open ho) (s.kinds_put h none r')
    (hbooks.ids.trans (t.settles_conclusion s.region committed).ids_eq)
    (hbooks.gate.trans (t.gate_conclusion s.region committed)) (hbooks.commits.trans hcommits)
    (hbooks.aborts.trans haborts)

/-- What an end tells, and enters. -/
theorem entry_finish (ho : s.open? h = some t) :
    ∃ committed, (s.finish h).1 = some committed ∧ Entry s (s.finish h).2 [(h, committed)] := by
  rw [finish_of_open ho]
  exact ⟨_, rfl, entry_conclusion ho _ (Region.sameBooks_collect _)⟩

theorem entry_abandon (ho : s.open? h = some t) : Entry s (s.abandon h) [(h, false)] := by
  rw [abandon, ho]
  exact entry_conclusion ho false (.refl _)

theorem unbooked_step (s : Session) {operation : Operation} (hinner : operation.isUnbooked = true) :
    s.Unbooked (s.step operation).2 := by
  cases operation with
  | begin readOnly => cases hinner
  | finish h => cases hinner
  | abandon h => cases hinner
  | read h a length =>
    exact unbooked_access h (fun t r => t.read r a length) fun t =>
      t.unbooked_read s.region a length
  | write h a bytes =>
    exact unbooked_access h (fun t r => t.write r a bytes) fun t =>
      t.unbooked_write s.region a bytes
  | alloc h size memory =>
    exact unbooked_access h (fun t r => t.alloc r size memory) fun t =>
      t.unbooked_alloc s.region size memory
  | free h a =>
    exact unbooked_access h (fun t r => t.free r a) fun t => t.unbooked_free s.region a
  | abort h =>
    show s.Unbooked (s.abort h)
    rcases s.abort_cases h with hsame | ⟨t, ho, hput⟩
    · rw [hsame]
      exact .refl s
    · rw [hput]
      exact ⟨kinds_put_some ho rfl, .refl _⟩
  | collect => exact ⟨rfl, Region.sameBooks_collect _⟩

theorem ends_accesses (s : Session) (h : Handle) (kind : WordRef → List UInt8 → Access)
    (a : Address) (bytes : List UInt8) : History.ends (s.accesses h kind a bytes) = [] := by
  unfold accesses
  split
  · rfl
  · simp [History.ends]

/-- Only operations that end a transaction tell of an end. -/
theorem ends_events_of_inner (s : Session) {operation : Operation}
    (hinner : operation.isUnbooked = true) : History.ends (s.events operation) = [] := by
  cases operation with
  | begin readOnly => cases hinner
  | finish h => cases hinner
  | abandon h => cases hinner
  | read h a length =>
    simp only [events]
    split
    · split
      · rfl
      · exact s.ends_accesses ..
    · rfl
  | write h a bytes =>
    simp only [events]
    split
    · exact s.ends_accesses ..
    · rfl
  | alloc h size memory => rfl
  | free h a => rfl
  | abort h => rfl
  | collect => rfl

/-- Every operation makes one entry at most, and tells of the end that it enters. -/
theorem entry_step (s : Session) (operation : Operation) :
    Entry s (s.step operation).2 (History.ends (s.events operation)) := by
  by_cases hinner : operation.isUnbooked = true
  · rw [s.ends_events_of_inner hinner]
    exact .unbooked (s.unbooked_step hinner)
  cases operation with
  | begin readOnly =>
    have hnone : History.ends (s.events (.begin readOnly)) = [] := by
      simp only [events]
      split <;> rfl
    rw [hnone]
    exact s.entry_begin readOnly
  | finish h =>
    show Entry s (s.finish h).2 _
    cases ho : s.open? h with
    | none =>
      simp only [events, finish, ho]
      exact .unbooked (.refl s)
    | some t =>
      obtain ⟨committed, hcommitted, hentry⟩ := entry_finish ho
      simp only [events, hcommitted]
      exact hentry
  | abandon h =>
    show Entry s (s.abandon h) _
    cases ho : s.open? h with
    | none =>
      simp only [events, abandon, ho]
      exact .unbooked (.refl s)
    | some t =>
      simp only [events, ho]
      exact entry_abandon ho
  | _ => exact absurd rfl hinner

/-! ## Every transaction is counted once -/

/-- The counters count the ends of the history, and every transaction that is no
    longer open has one end there. -/
structure Audited (hist : History) (s : Session) : Prop where
  commits : s.region.stats.commits = hist.ends.countP fun x => x.2
  aborts : s.region.stats.aborts = hist.ends.countP fun x => !x.2
  once : (hist.ends.map Prod.fst).Nodup
  closed : ∀ h, h ∈ hist.ends.map Prod.fst ↔ h < s.transactions.size ∧ s.open? h = none

namespace Audited

variable {hist events : History}

/-- An entry that tells of an end counts it. -/
theorem entry (hc : Audited hist s) (e : Entry s s' events.ends) : Audited (events ++ hist) s' := by
  have happend : (events ++ hist).ends = events.ends ++ hist.ends := List.filterMap_append ..
  -- The kinds tell who has ended, which an entry changes for one handle at most.
  have hclosed : ∀ h, h ∈ hist.ends.map Prod.fst ↔ s.kinds[h]? = some none := fun h =>
    (hc.closed h).trans kinds_eq_none_iff.symm
  have hcommits : s.region.commits = _ := hc.commits
  have haborts : s.region.aborts = _ := hc.aborts
  generalize hends : events.ends = ends at e happend
  cases e with
  | unbooked same =>
    obtain ⟨kinds, books⟩ := same
    rw [List.nil_append] at happend
    constructor
    · rw [happend]; exact books.commits.trans hcommits
    · rw [happend]; exact books.aborts.trans haborts
    · rw [happend]; exact hc.once
    · intro h
      rw [happend, ← kinds_eq_none_iff, kinds]
      exact hclosed h
  | began readOnly admits kinds gate commits aborts =>
    rw [List.nil_append] at happend
    constructor
    · rw [happend]; exact commits.trans hcommits
    · rw [happend]; exact aborts.trans haborts
    · rw [happend]; exact hc.once
    · intro h
      rw [happend, ← kinds_eq_none_iff, kinds, hclosed, List.getElem?_append]
      split
      · rfl
      next hge =>
        -- The new transaction is open, so its handle has no end.
        rw [List.getElem?_eq_none (Nat.le_of_not_lt hge)]
        simp [List.getElem?_singleton]
  | @ended h readOnly committed isOpen kinds ids gate commits aborts =>
    have hlt := (List.getElem?_eq_some_iff.1 isOpen).1
    constructor
    · rw [happend]
      simp only [List.singleton_append, List.countP_cons, Region.stats, commits, hcommits]
    · rw [happend]
      simp only [List.singleton_append, List.countP_cons, Region.stats, aborts, haborts]
      cases committed <;> rfl
    · -- It was open, so the history told of no end before.
      rw [happend]
      refine List.nodup_cons.2 ⟨fun hmem => ?_, hc.once⟩
      have hended := (hclosed h).1 hmem
      rw [isOpen] at hended
      cases hended
    · intro k
      rw [happend, ← kinds_eq_none_iff, kinds, List.singleton_append, List.map_cons,
        List.mem_cons, hclosed]
      by_cases hk : k = h
      · subst hk
        simp [List.getElem?_set_self hlt]
      · simp [List.getElem?_set_ne (Ne.symm hk), hk]

end Audited

theorem audited_record {hist : History} (hc : Audited hist s) (operations : List Operation) :
    Audited (s.record hist operations) (s.run operations).2 := by
  induction operations generalizing s hist with
  | nil => exact hc
  | cons operation rest ih => exact ih (hc.entry (s.entry_step operation))

theorem audited_of_create {settings : Settings} (h : create settings = .ok s) :
    Audited [] s := by
  obtain ⟨r, hcreate, rfl⟩ := create_inv h
  obtain ⟨-, i, hallocate⟩ := Region.create_inv hcreate
  have hbooks := Region.sameBooks_allocate? hallocate
  exact ⟨hbooks.commits, hbooks.aborts, .nil, by simp [History.ends]⟩

end Session

end TransactionalMemory
