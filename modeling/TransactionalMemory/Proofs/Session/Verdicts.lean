import Mathlib.Data.List.Induction
import TransactionalMemory.Proofs.Session.Books
import TransactionalMemory.Proofs.Session.Logs
import TransactionalMemory.Proofs.Session.LostRaces
import TransactionalMemory.Proofs.Session.Serialization

/-! # When a transaction commits

    A read-write transaction that is not doomed commits if and only if what it
    has observed still holds. The code compares commit counts of 62 bits with the
    counts of the words now. What it decides by that is told here without counts:
    of every word that the transaction has read while another one was the
    accessor, nobody has committed a write since, and nobody else has one pending.

    The log of observations has an entry for each of these reads and no other
    entry, whatever the transaction has done to the words before or after. -/

namespace TransactionalMemory

/-! ## What a pass observes -/

namespace Transaction

variable {t t' : Transaction} {r r' : Region}

/-- A pass of reads that reaches its end has observed the words of the range whose
    accessor is another transaction, each with its commit count. -/
theorem mem_observed_readWords {n : Nat} {s : Segment} (first count : Nat)
    (hrange : first + count ≤ s.words) (soFar : Array UInt8) {bytes : List UInt8}
    (hvalue : (t.readWords s n first count soFar).value = .ok bytes) (o : Observation) :
    o ∈ (t.readWords s n first count soFar).transaction.observed ↔
      o ∈ t.observed ∨ ∃ w, first ≤ w ∧ w < first + count ∧ o = ⟨⟨n, w⟩, (s.cell w).seq⟩ ∧
        ∃ id, id ≠ t.id ∧ (s.cell w).accessor = some id := by
  induction count generalizing t s first soFar with
  | zero =>
    -- There is no word in an empty range.
    have hnone : ∀ w, ¬ (first ≤ w ∧ w < first + 0) := by omega
    refine ⟨.inl, fun h => h.resolve_right ?_⟩
    rintro ⟨w, hlow, hhigh, -⟩
    exact hnone w ⟨hlow, hhigh⟩
  | succ count ih =>
    have hw : first < s.words := by omega
    rcases hread : s.readWord t.id first with ⟨_ | ⟨g, part⟩, s'⟩
    · simp only [readWords, hread] at hvalue
      cases hvalue
    · obtain ⟨hgrants, -, hbecomes⟩ :=
        Segment.readWord_granted hw (by rw [hread] : (s.readWord t.id first).1 = some (g, part))
      rw [hread] at hbecomes
      have hwords : s'.words = s.words := congrArg (fun l => l.2.2.2) hbecomes.layout
      simp only [readWords, hread] at hvalue ⊢
      rw [ih (first + 1) (by omega) (soFar ++ part) hvalue, id_log]
      -- The first word is observed if and only if its accessor is somebody else.
      have hfirst : o ∈ (t.log ⟨n, first⟩ g).observed ↔ o ∈ t.observed ∨
          (o = ⟨⟨n, first⟩, (s.cell first).seq⟩ ∧
            ∃ id, id ≠ t.id ∧ (s.cell first).accessor = some id) := by
        cases g with
        | claimed => simp [log, hgrants.1]
        | owned =>
          have howned : (s.cell first).accessor = some t.id := hgrants
          simp [log, howned]
        | observed seq =>
          obtain ⟨-, rfl, u, hne, hu⟩ := hgrants
          simp [log, hu, hne, or_comm]
      -- The cells of the other words are as they were.
      have hrest : ∀ w, first + 1 ≤ w → s'.cell w = s.cell w := fun w hlow =>
        hbecomes.others w (by omega)
      rw [hfirst, or_assoc]
      refine or_congr_right ?_
      constructor
      · rintro (⟨ho, hother⟩ | ⟨w, hlow, hhigh, ho, hother⟩)
        · exact ⟨first, by omega, by omega, ho, hother⟩
        · rw [hrest w hlow] at ho hother
          exact ⟨w, by omega, by omega, ho, hother⟩
      · rintro ⟨w, hlow, hhigh, ho, hother⟩
        by_cases heq : w = first
        · subst heq
          exact .inl ⟨ho, hother⟩
        · have hlow' : first + 1 ≤ w := by omega
          refine .inr ⟨w, hlow', by omega, ?_⟩
          rw [hrest w hlow']
          exact ⟨ho, hother⟩

/-- Writes observe nothing. -/
theorem WordSteps.observed_eq {accesses : List Access} (h : t.WordSteps r accesses t' r')
    (hwrites : ∀ a ∈ accesses, ∃ ref bytes, a = .write ref bytes) : t'.observed = t.observed := by
  induction h with
  | nil => rfl
  | @cons t t₁ t₂ r r₁ r₂ a rest first after ih =>
    rw [ih fun b hb => hwrites b (List.mem_cons_of_mem _ hb)]
    obtain ⟨ref, bytes, rfl⟩ := hwrites a List.mem_cons_self
    cases first with
    | @write _ _ g _ _ cell grants exclusive becomes =>
      cases g with
      | claimed => rfl
      | owned => rfl
      | observed seq => exact absurd rfl (exclusive seq)

end Transaction

namespace Session

variable {s s' start : Session} {h k : Handle} {t t' u : Transaction} {hist past : History}
  {ref : WordRef} {operations : List Operation}

/-! ## Words that others hold -/

/-- Another open transaction than `h` is the accessor of the word. -/
def ClaimedByOther (s : Session) (h : Handle) (ref : WordRef) : Prop :=
  ∃ k u c, k ≠ h ∧ s.open? k = some u ∧ s.region.cell? ref = some c ∧ c.accessor = some u.id

/-- Another open transaction than `h` has a write pending in the word. -/
def WrittenByOther (s : Session) (h : Handle) (ref : WordRef) : Prop :=
  ∃ k u c, k ≠ h ∧ s.open? k = some u ∧ s.region.cell? ref = some c ∧
    (c.pendingOf u.id).isSome = true

/-- To a read-write transaction, an accessor with another id is another
    transaction that is open. -/
theorem claimedByOther_iff (hs : s.Steady) (ho : s.open? h = some t) (hrw : t.isReadOnly = false)
    {c : Cell} (hc : s.region.cell? ref = some c) :
    s.ClaimedByOther h ref ↔ ∃ id, id ≠ t.id ∧ c.accessor = some id := by
  constructor
  · rintro ⟨k, u, c', hk, hu, hc', haccessor⟩
    cases hc.symm.trans hc'
    exact ⟨u.id, hs.id_ne ho hu hk hrw, haccessor⟩
  · rintro ⟨id, hne, haccessor⟩
    -- Every accessor is open, with its id.
    obtain ⟨k, u, hu, hmode, -⟩ := hs.accessors ref c id hc haccessor
    have hid : u.id = id := by rw [Transaction.id, hmode]; rfl
    refine ⟨k, u, c, ?_, hu, hc, by rw [hid]; exact haccessor⟩
    rintro rfl
    cases ho.symm.trans hu
    exact hne hid.symm

/-- And a write that is pending is of another transaction unless it is its own. -/
theorem not_writtenByOther_iff (hs : s.Steady) (ho : s.open? h = some t)
    (hrw : t.isReadOnly = false) {c : Cell} (hc : s.region.cell? ref = some c) :
    ¬ s.WrittenByOther h ref ↔ c.pending = none ∨ c.accessor = some t.id := by
  constructor
  · intro hnone
    by_cases hpending : c.pending = none
    · exact .inl hpending
    · obtain ⟨id, haccessor⟩ := Option.isSome_iff_exists.1
        (Option.isSome_iff_ne_none.2 (hs.pending ref c hc hpending))
      by_cases heq : id = t.id
      · exact .inr (heq ▸ haccessor)
      · obtain ⟨k, u, c', hk, hu, hc', hclaimed⟩ :=
          (claimedByOther_iff hs ho hrw hc).2 ⟨id, heq, haccessor⟩
        cases hc.symm.trans hc'
        refine absurd ⟨k, u, c, hk, hu, hc, ?_⟩ hnone
        rw [Cell.pendingOf, if_pos hclaimed]
        exact Option.isSome_iff_ne_none.2 hpending
  · rintro hown ⟨k, u, c', hk, hu, hc', hpending⟩
    cases hc.symm.trans hc'
    have hne := hs.id_ne ho hu hk hrw
    rcases hown with hnone | haccessor
    · simp [Cell.pendingOf, hnone] at hpending
    · have : c.accessor ≠ some u.id := fun heq =>
        hne (Option.some.inj (heq.symm.trans haccessor))
      simp [Cell.pendingOf, this] at hpending

/-! ## What a transaction has observed -/

/-- The operation is a read of transaction `h` that succeeds, of a range with a
    word whose accessor is another transaction. -/
def Observes (s : Session) (h : Handle) (ref : WordRef) : Operation → Prop
  | .read k a length =>
    k = h ∧ (∃ bytes, (s.read h a length).1 = some (.ok bytes)) ∧
      (∃ first, s.region.wordAt? a = some first ∧ ref.segment = first.segment ∧
        first.word ≤ ref.word ∧ ref.word < first.word + length / s.region.wordSize) ∧
      s.ClaimedByOther h ref
  | .begin _ | .write .. | .alloc .. | .free .. | .abort _ | .finish _ | .abandon _ | .collect =>
    False

/-- Some operation of the run was such a read, and this was the history before it. -/
def Observed (start : Session) (operations : List Operation) (h : Handle) (ref : WordRef)
    (past : History) : Prop :=
  ∃ before operation after, operations = before ++ operation :: after ∧
    (start.run before).2.Observes h ref operation ∧ start.record [] before = past

/-- Only who is open observes. -/
theorem isOpen_of_observes {operation : Operation} (hobserves : s.Observes h ref operation) :
    ∃ t, s.open? h = some t := by
  cases operation with
  | read k a length =>
    obtain ⟨-, ⟨bytes, hread⟩, -⟩ := hobserves
    cases ho : s.open? h with
    | none =>
      rw [read, access, ho] at hread
      cases hread
    | some t => exact ⟨t, rfl⟩
  | _ => exact hobserves.elim

/-- What the last operation of a run adds. -/
theorem observed_append {operation : Operation} :
    start.Observed (operations ++ [operation]) h ref past ↔
      start.Observed operations h ref past ∨
        ((start.run operations).2.Observes h ref operation ∧
          start.record [] operations = past) := by
  constructor
  · rintro ⟨before, last, after, hsplit, hobserves, hpast⟩
    -- The read is the last operation, or the last one comes after it.
    rcases List.eq_nil_or_concat after with rfl | ⟨after, x, rfl⟩
    · obtain ⟨rfl, heq⟩ := List.append_inj' hsplit rfl
      cases heq
      exact .inr ⟨hobserves, hpast⟩
    · rw [List.concat_eq_append, ← List.cons_append, ← List.append_assoc] at hsplit
      obtain ⟨rfl, -⟩ := List.append_inj' hsplit rfl
      exact .inl ⟨before, last, after, rfl, hobserves, hpast⟩
  · rintro (⟨before, last, after, rfl, hobserves, hpast⟩ | ⟨hobserves, hpast⟩)
    · exact ⟨before, last, after ++ [operation], by simp, hobserves, hpast⟩
    · exact ⟨operations, operation, [], rfl, hobserves, hpast⟩

/-- The transaction has noted what the operation observes, with the number of
    commits of the word by then. -/
def Notes (s : Session) (hist : History) (h : Handle) (operation : Operation)
    (t t' : Transaction) : Prop :=
  ∀ o, o ∈ t'.observed ↔ o ∈ t.observed ∨
    (s.Observes h o.ref operation ∧ o.seq = hist.commits o.ref % commitCounts)

/-- An operation that observes nothing leaves nothing to note. -/
theorem notes_of_eq {operation : Operation} (heq : t'.observed = t.observed)
    (hnone : ∀ ref, ¬ s.Observes h ref operation) : s.Notes hist h operation t t' := by
  intro o
  rw [heq]
  exact ⟨.inl, fun hor => hor.resolve_right fun hboth => hnone o.ref hboth.1⟩

/-- A read that does not fail notes what it observes. -/
theorem notes_read (hs : s.Steady) (hrep : Represents hist s) (ho : s.open? h = some t)
    (hrw : t.isReadOnly = false) {a : Address} {length : Nat}
    (hundoomed : (t.read s.region a length).transaction.doomed = false) :
    s.Notes hist h (.read h a length) t (t.read s.region a length).transaction := by
  intro o
  cases t.read_cases s.region a length with
  | refused doomed heq =>
    rw [heq] at hundoomed
    exact absurd doomed (Bool.eq_false_iff.1 hundoomed)
  | failed undoomed why heq => rw [heq] at hundoomed; cases hundoomed
  | shared undoomed readOnly resolved found heq => cases hrw.symm.trans readOnly
  | @passed slot first seg undoomed readWrite resolved found heq =>
    obtain ⟨hrange, -⟩ := resolved.range_le hs.shaped found
    cases hvalue : (t.readWords seg first.segment first.word (length / s.region.wordSize)
        #[]).value with
    | error w =>
      rw [heq] at hundoomed
      simp [Transaction.ofPass, Transaction.fail, Transaction.doom, hvalue] at hundoomed
    | ok bytes =>
      have hread : (s.read h a length).1 = some (.ok bytes) := by
        rw [read, access_of_open _ ho, heq]
        simp [Transaction.ofPass, hvalue]
      have htransaction : (t.read s.region a length).transaction
          = (t.readWords seg first.segment first.word (length / s.region.wordSize)
              #[]).transaction := by
        rw [heq]
        simp [Transaction.ofPass, hvalue]
      have hcell : ∀ w, w < first.word + length / s.region.wordSize →
          s.region.cell? ⟨first.segment, w⟩ = some (seg.cell w) := fun w hw =>
        Region.cell?_eq_some_iff.2 ⟨seg, found, Nat.lt_of_lt_of_le hw hrange, rfl⟩
      -- What is in the log of the pass is told by the state before the read.
      rw [htransaction, Transaction.mem_observed_readWords first.word _ hrange #[] hvalue]
      refine or_congr_right ?_
      constructor
      · rintro ⟨w, hlow, hhigh, rfl, hother⟩
        have hc := hcell w hhigh
        exact ⟨⟨rfl, ⟨bytes, hread⟩, ⟨first, resolved.wordAt?_eq, rfl, hlow, hhigh⟩,
          (claimedByOther_iff hs ho hrw hc).2 hother⟩, hrep.counts _ _ hc⟩
      · obtain ⟨⟨n, w⟩, seq⟩ := o
        rintro ⟨⟨-, -, ⟨first', hat, hsegment, hlow, hhigh⟩, hclaimed⟩, hseq⟩
        cases resolved.wordAt?_eq.symm.trans hat
        change n = first.segment at hsegment
        subst hsegment
        have hc := hcell w hhigh
        refine ⟨w, hlow, hhigh, ?_, (claimedByOther_iff hs ho hrw hc).1 hclaimed⟩
        rw [hrep.counts _ _ hc, ← hseq]

/-- A write that does not fail adds nothing to the log. -/
theorem observed_write (hs : s.Steady) (t : Transaction) (a : Address) (bytes : List UInt8)
    (hundoomed : (t.write s.region a bytes).transaction.doomed = false) :
    (t.write s.region a bytes).transaction.observed = t.observed := by
  cases t.write_cases s.region a bytes with
  | refused doomed heq => rw [heq]; rfl
  | failed undoomed why heq => rw [heq]; rfl
  | @passed slot first seg undoomed readWrite resolved found heq =>
    obtain ⟨hrange, hwhole⟩ := resolved.range_le hs.shaped found
    obtain ⟨accesses, hsteps, -, hend⟩ := Transaction.writeWords_steps (t := t)
      hs.shaped found first.word (bytes.length / s.region.wordSize) hrange bytes hwhole.symm
    rw [heq] at hundoomed ⊢
    cases hvalue : (t.writeWords seg first.segment s.region.wordSize first.word
        (bytes.length / s.region.wordSize) bytes).value with
    | error w => simp [Transaction.ofPass, Transaction.fail, Transaction.doom, hvalue] at hundoomed
    | ok _ =>
      have hwrites : ∀ x ∈ accesses, ∃ ref part, x = .write ref part := by
        rw [hend hvalue]
        intro x hx
        obtain ⟨⟨ref, part⟩, -, rfl⟩ := List.mem_map.1 hx
        exact ⟨ref, part, rfl⟩
      simpa [Transaction.ofPass, hvalue] using hsteps.observed_eq hwrites

theorem observed_alloc (t : Transaction) (r : Region) (size : Nat) (memory : Bool) :
    (t.alloc r size memory).transaction.observed = t.observed := by
  cases t.alloc_cases r size memory with
  | refused doomed heq => rw [heq]; rfl
  | failed undoomed why heq => rw [heq]; rfl
  | scarce undoomed readWrite attempt heq => rw [heq]
  | granted undoomed readWrite whole enough found heq => rw [heq]

theorem observed_free (t : Transaction) (r : Region) (a : Address) :
    (t.free r a).transaction.observed = t.observed := by
  cases t.free_cases r a with
  | refused doomed heq => rw [heq]; rfl
  | failed undoomed why heq => rw [heq]; rfl
  | marked undoomed readWrite freeable live heq => rw [heq]

/-- Whoever is open after an operation and not doomed has observed what it had
    observed before, and what the operation observes; or has just begun. -/
theorem notes_step (hs : s.Steady) (hrep : Represents hist s) {operation : Operation}
    (ho' : (s.step operation).2.open? h = some t') (hrw : t'.isReadOnly = false)
    (hundoomed : t'.doomed = false) :
    (∃ t, s.open? h = some t ∧ s.Notes hist h operation t t') ∨
      (s.transactions.size ≤ h ∧ t'.observed = []) := by
  cases became_of_step ho' with
  | began new unlogged => exact .inr ⟨new, unlogged.2.1⟩
  | @kept operation isOpen other =>
    refine .inl ⟨t', isOpen, notes_of_eq rfl fun ref hobserves => ?_⟩
    cases operation with
    | read k a length => exact other (congrArg some hobserves.1)
    | _ => exact hobserves
  | gaveUp isOpen after =>
    rw [after] at hundoomed
    cases hundoomed
  | @read t a length isOpen after =>
    subst after
    -- It was a read-write transaction before the read, too.
    have hmode := (t.unbooked_read s.region a length).mode_eq
    rw [Transaction.isReadOnly, hmode] at hrw
    exact .inl ⟨t, isOpen, notes_read hs hrep isOpen hrw hundoomed⟩
  | @write t a bytes isOpen after =>
    subst after
    exact .inl ⟨t, isOpen, notes_of_eq (observed_write hs t a bytes hundoomed) fun _ => id⟩
  | @alloc t size memory isOpen after =>
    rw [after]
    exact .inl ⟨t, isOpen, notes_of_eq (observed_alloc t s.region size memory) fun _ => id⟩
  | @free t a isOpen after =>
    rw [after]
    exact .inl ⟨t, isOpen, notes_of_eq (observed_free t s.region a) fun _ => id⟩

/-- Whoever has observed something has begun. -/
theorem lt_size_of_observed (hobserved : start.Observed operations h ref past)
    (hs : start.Steady) : h < (start.run operations).2.transactions.size := by
  obtain ⟨before, operation, after, rfl, hobserves, -⟩ := hobserved
  obtain ⟨t, ho⟩ := isOpen_of_observes hobserves
  have hbefore : Effects False start _ _ := effects_record hs before nofun
  have hafter : Effects False _ _ _ :=
    effects_record (hs.effects hbefore) (operation :: after) nofun
  rw [run_append]
  exact Nat.lt_of_lt_of_le (lt_size_of_open ho) (size_effects hafter)

/-- The log of a read-write transaction that is not doomed has an entry for each
    read of a word whose accessor was another transaction, and no other entry. -/
theorem mem_observed_iff {settings : Settings} (hcreate : create settings = .ok start)
    (ho : (start.run operations).2.open? h = some t) (hrw : t.isReadOnly = false)
    (hundoomed : t.doomed = false) (o : Observation) :
    o ∈ t.observed ↔ ∃ past, start.Observed operations h o.ref past ∧
      o.seq = past.commits o.ref % commitCounts := by
  induction operations using List.reverseRecOn generalizing t with
  | nil => cases (open?_of_create hcreate h).symm.trans ho
  | append_singleton operations operation ih =>
    have htracks := (Tracks.of_create hcreate).run operations
    have hlast : (start.run (operations ++ [operation])).2
        = ((start.run operations).2.step operation).2 := by rw [run_append]; rfl
    have hchain : Effects False (start.run operations).2 _ _ :=
      effects_step htracks.steady operation nofun
    rw [hlast] at ho
    simp only [observed_append]
    rcases notes_step htracks.steady htracks.represents ho hrw hundoomed with
      ⟨t₀, ho₀, hnotes⟩ | ⟨hnew, hnone⟩
    · -- It was not doomed before, either.
      have hgoes := continues_effects hchain ho₀ ho
      have hrw₀ : t₀.isReadOnly = false := by
        rwa [Transaction.isReadOnly, hgoes.mode_eq] at hrw
      have hundoomed₀ : t₀.doomed = false := Bool.eq_false_iff.2 fun hd => by
        rw [hgoes.doomed hd] at hundoomed
        cases hundoomed
      rw [hnotes o, ih ho₀ hrw₀ hundoomed₀]
      constructor
      · rintro (⟨past, hobserved, hseq⟩ | ⟨hobserves, hseq⟩)
        · exact ⟨past, .inl hobserved, hseq⟩
        · exact ⟨_, .inr ⟨hobserves, rfl⟩, hseq⟩
      · rintro ⟨past, hobserved | ⟨hobserves, rfl⟩, hseq⟩
        · exact .inl ⟨past, hobserved, hseq⟩
        · exact .inr ⟨hobserves, hseq⟩
    · -- Nobody observes anything before it begins.
      rw [hnone]
      refine ⟨fun hmem => absurd hmem List.not_mem_nil, ?_⟩
      rintro ⟨past, hobserved | ⟨hobserves, -⟩, -⟩
      · have hlt := lt_size_of_observed hobserved (steady_of_create hcreate)
        exact absurd hnew (Nat.not_le_of_lt hlt)
      · obtain ⟨u, hu⟩ := isOpen_of_observes hobserves
        exact absurd hnew (Nat.not_le_of_lt (lt_size_of_open hu))

/-! ## The verdict -/

/-- Whoever is open before and after has not ended in between. -/
theorem ended_not_mem_of_open {orderly : Prop} {events : History}
    (e : Effects orderly s events s') (hu : s.open? k = some u) (hu' : s'.open? k = some t)
    (committed : Bool) : .ended k committed ∉ events := by
  induction e generalizing t with
  | nil => exact List.not_mem_nil
  | snoc before last ih =>
    obtain ⟨v, hv, -⟩ := open_between before last hu hu'
    intro hmem
    rcases List.mem_append.1 hmem with hnew | hold
    · obtain ⟨w, hw, -, rfl⟩ := ended_of_effect last hnew
      cases (open?_put_self hw).symm.trans hu'
    · exact ih hv hold

/-- Since a transaction that is still open has observed a word, few transactions
    have committed a write to it. -/
theorem commits_lt_of_observed {settings : Settings} (hcreate : create settings = .ok start)
    (hfew : (start.record [] operations).FewCommits)
    (ho : (start.run operations).2.open? h = some t)
    (hobserved : start.Observed operations h ref past) :
    past.commits ref ≤ (start.record [] operations).commits ref ∧
      (start.record [] operations).commits ref < past.commits ref + commitCounts := by
  obtain ⟨before, operation, after, rfl, hobserves, rfl⟩ := hobserved
  obtain ⟨u, hu⟩ := isOpen_of_observes hobserves
  have htracks := (Tracks.of_create hcreate).run before
  -- The history since the transaction began, before the read and after it, has no end of it.
  obtain ⟨during, early, heq, hduring, -⟩ := htracks.traced.opened h u hu
  have hlater : Effects False (start.run before).2 _ _ :=
    effects_record htracks.steady (operation :: after) nofun
  have hsplit : start.record [] (before ++ operation :: after)
      = (start.run before).2.record [] (operation :: after) ++ start.record [] before := by
    rw [record_append, record_eq_append]
  rw [run_append] at ho
  have hopen := ended_not_mem_of_open hlater hu ho
  have hstart : start.record [] (before ++ operation :: after)
      = ((start.run before).2.record [] (operation :: after) ++ during) ++ .began h :: early := by
    rw [hsplit, heq, List.append_assoc]
  have hlt := hfew _ h early ⟨[], hstart.symm⟩ (fun committed hmem => ?_) ref
  · have hearly : History.commits ref early ≤ History.commits ref (start.record [] before) :=
      History.commits_le_of_suffix ref ⟨during ++ [.began h], by rw [heq]; simp⟩
    rw [← hstart] at hlt
    exact ⟨History.commits_le_of_suffix ref ⟨_, hsplit.symm⟩, by omega⟩
  · exact (List.mem_append.1 hmem).elim (hopen committed) (hduring committed)

/-- Whether an observation holds, told without counts. -/
theorem stillValid_iff (hs : s.Steady) (hrep : Represents hist s) (ho : s.open? h = some t)
    (hrw : t.isReadOnly = false) {c : Cell} (hc : s.region.cell? ref = some c)
    (hle : past.commits ref ≤ hist.commits ref)
    (hlt : hist.commits ref < past.commits ref + commitCounts) :
    c.StillValid t.id (past.commits ref % commitCounts) ↔
      hist.commits ref = past.commits ref ∧ ¬ s.WrittenByOther h ref := by
  rw [Cell.StillValid, not_writtenByOther_iff hs ho hrw hc, hrep.counts ref c hc]
  refine and_congr_left' ⟨fun hmod => ?_, fun heq => by rw [heq]⟩
  -- Equal counts modulo `commitCounts`, not too far apart, are equal.
  have hzero := Nat.sub_mod_eq_zero_of_mod_eq hmod
  rw [Nat.mod_eq_of_lt (by omega)] at hzero
  omega

/-- The observations of a transaction hold if and only if nobody has committed a
    write to an observed word since, and nobody else has one pending. -/
theorem observationsHold_iff {settings : Settings} (hcreate : create settings = .ok start)
    (horderly : start.Orderly operations) (hfew : (start.record [] operations).FewCommits)
    (ho : (start.run operations).2.open? h = some t) (hrw : t.isReadOnly = false)
    (hundoomed : t.doomed = false) :
    t.observationsHold (start.run operations).2.region = true ↔
      ∀ ref past, start.Observed operations h ref past →
        (start.record [] operations).commits ref = past.commits ref ∧
          ¬ (start.run operations).2.WrittenByOther h ref := by
  have hrec := (Recorded.created hcreate).run operations horderly
  have hs := hrec.sound
  have hrep := hrec.represents
  rw [hs.observationsHold_iff ho]
  constructor
  · intro hvalid ref past hobserved
    have hmem := (mem_observed_iff hcreate ho hrw hundoomed
      ⟨ref, past.commits ref % commitCounts⟩).2 ⟨past, hobserved, rfl⟩
    obtain ⟨c, hc⟩ := hs.cell?_of_observed ho hmem
    obtain ⟨hle, hlt⟩ := commits_lt_of_observed hcreate hfew ho hobserved
    exact (stillValid_iff hs.toSteady hrep ho hrw hc hle hlt).1 (hvalid _ hmem c hc)
  · intro hheld o hmem c hc
    obtain ⟨past, hobserved, hseq⟩ := (mem_observed_iff hcreate ho hrw hundoomed o).1 hmem
    obtain ⟨hle, hlt⟩ := commits_lt_of_observed hcreate hfew ho hobserved
    rw [hseq]
    exact (stillValid_iff hs.toSteady hrep ho hrw hc hle hlt).2 (hheld o.ref past hobserved)

theorem finish_eq_true_iff (ho : s.open? h = some t) :
    (s.finish h).1 = some true ↔ t.doomed = false ∧ t.observationsHold s.region = true := by
  simp [finish_of_open ho]

/-- How the end of transaction `h` is decided after a run, and what its end adds to
    the counters. -/
structure Judged (start : Session) (operations : List Operation) (h : Handle)
    (t : Transaction) : Prop where
  /-- A read-only transaction commits unless it is doomed. -/
  readOnly : t.isReadOnly = true →
    (((start.run operations).2.finish h).1 = some true ↔ t.doomed = false)
  /-- A read-write one commits unless it is doomed or has, while another one was
      the accessor, read a word that was committed since or that another one has
      written. -/
  readWrite : t.isReadOnly = false →
    (((start.run operations).2.finish h).1 = some true ↔ t.doomed = false ∧
      ∀ ref past, start.Observed operations h ref past →
        (start.record [] operations).commits ref = past.commits ref ∧
          ¬ (start.run operations).2.WrittenByOther h ref)
  /-- An end counts as what it has returned. -/
  finished : ∃ committed, ((start.run operations).2.finish h).1 = some committed ∧
    ((start.run operations).2.finish h).2.region.stats.commits =
      (start.run operations).2.region.stats.commits + (if committed then 1 else 0) ∧
    ((start.run operations).2.finish h).2.region.stats.aborts =
      (start.run operations).2.region.stats.aborts + if committed then 0 else 1
  /-- A transaction that is dropped counts as an abort. -/
  abandoned :
    ((start.run operations).2.abandon h).region.stats.commits =
      (start.run operations).2.region.stats.commits ∧
    ((start.run operations).2.abandon h).region.stats.aborts =
      (start.run operations).2.region.stats.aborts + 1

/-- **The verdict is exact.** After every orderly run in which no word is committed
    too often while one transaction is open, the end of an open transaction commits
    exactly when nothing speaks against it; and every transaction that has ended,
    in whatever way, was counted once, as a commit if and only if its end said so. -/
theorem run_verdicts {settings : Settings} (hcreate : create settings = .ok start)
    (horderly : start.Orderly operations) (hfew : (start.record [] operations).FewCommits) :
    (∀ h t, (start.run operations).2.open? h = some t → start.Judged operations h t) ∧
      Audited (start.record [] operations) (start.run operations).2 := by
  refine ⟨fun h t ho => ?_, audited_record (audited_of_create hcreate) operations⟩
  have hs := ((Recorded.created hcreate).run operations horderly).sound
  constructor
  case readOnly =>
    intro hro
    -- Read-only transactions observe nothing.
    have hholds : t.observationsHold (start.run operations).2.region = true := by
      rw [Transaction.observationsHold, ((hs.logged h t ho).readers hro).2.1]
      rfl
    rw [finish_eq_true_iff ho, hholds]
    exact and_iff_left rfl
  case readWrite =>
    intro hrw
    rw [finish_eq_true_iff ho]
    exact and_congr_right fun hundoomed =>
      observationsHold_iff hcreate horderly hfew ho hrw hundoomed
  case finished =>
    obtain ⟨hcommits, haborts⟩ := t.counts_conclusion (start.run operations).2.region
      (!t.doomed && t.observationsHold (start.run operations).2.region)
    have hbooks := Region.sameBooks_collect (t.conclusion (start.run operations).2.region
      (!t.doomed && t.observationsHold (start.run operations).2.region))
    rw [finish_of_open ho]
    exact ⟨_, rfl, hbooks.commits.trans hcommits, hbooks.aborts.trans haborts⟩
  case abandoned =>
    obtain ⟨hcommits, haborts⟩ := t.counts_conclusion (start.run operations).2.region false
    rw [abandon, ho]
    exact ⟨hcommits, haborts⟩

/-- Transaction 1 reads a word that transaction 0 has claimed, and transaction 0
    writes the word and commits. -/
def staleRead : List Operation :=
  [.begin false, .begin false, .read 0 Region.start 8, .read 1 Region.start 8,
    .write 0 Region.start [1, 2, 3, 4, 5, 6, 7, 8], .finish 0]

theorem staleRead_observes :
    (oneWord.run (staleRead.take 3)).2.Observes 1 ⟨0, 0⟩ (.read 1 Region.start 8) := by
  obtain ⟨u, hu, hid⟩ := Option.map_eq_some_iff.1
    (show ((oneWord.run (staleRead.take 3)).2.open? 0).map Transaction.id
      = some ⟨1, by decide, by decide⟩ by decide +kernel)
  obtain ⟨c, hc, haccessor⟩ := Option.map_eq_some_iff.1
    (show ((oneWord.run (staleRead.take 3)).2.region.cell? ⟨0, 0⟩).map Cell.accessor
      = some (some ⟨1, by decide, by decide⟩) by decide +kernel)
  exact ⟨rfl, ⟨List.replicate 8 0, by decide +kernel⟩,
    ⟨⟨0, 0⟩, by decide +kernel, rfl, Nat.le_refl _, by decide +kernel⟩,
    0, u, c, by decide, hu, hc, by rw [hid]; exact haccessor⟩

/-- Transaction 1 by then. -/
def staleReader : Transaction where
  mode := .readWrite ⟨2, by decide, by decide⟩
  epoch := 1
  observed := [⟨⟨0, 0⟩, 0⟩]

/-- The commit came after the read, so transaction 1 does not commit. -/
theorem run_verdicts_stale_read :
    (oneWord.run staleRead).2.open? 1 = some staleReader ∧ staleReader.doomed = false ∧
      oneWord.Judged staleRead 1 staleReader ∧
      ((oneWord.run staleRead).2.finish 1).1 ≠ some true ∧
      Audited (oneWord.record [] staleRead) (oneWord.run staleRead).2 := by
  have hopen : (oneWord.run staleRead).2.open? 1 = some staleReader := by decide +kernel
  have hcreate : create { size := 8, align := 8 } = .ok oneWord := rfl
  have horderly : oneWord.Orderly staleRead := by decide +kernel
  obtain ⟨hall, hcounted⟩ := run_verdicts hcreate horderly (.of_length (by decide +kernel))
  have hjudged := hall 1 staleReader hopen
  refine ⟨hopen, rfl, hjudged, fun hcommit => ?_, hcounted⟩
  have hheld := ((hjudged.readWrite rfl).1 hcommit).2 ⟨0, 0⟩ _
    ⟨staleRead.take 3, .read 1 Region.start 8, staleRead.drop 4, rfl, staleRead_observes, rfl⟩
  exact absurd hheld.1 (by decide +kernel)

end Session

end TransactionalMemory
