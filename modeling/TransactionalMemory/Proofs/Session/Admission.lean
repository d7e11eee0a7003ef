import TransactionalMemory.Proofs.Session.Ownership
import TransactionalMemory.Proofs.Transaction.Uncontested

/-! # Exclusive admission

    Under exclusive admission the gate keeps book of who is open: it counts the
    read-only transactions, and knows whether there is a read-write one. It lets
    a transaction in only where that agrees with who is open already, and every
    end takes back what the beginning has entered. So a read-write transaction
    is open alone.

    With nobody beside it, a transaction observes no word and gives up only what
    it has itself allocated and freed. So whatever is done under exclusive
    admission is orderly. -/

namespace TransactionalMemory

/-! ## The gate -/

namespace Gate

variable {g : Gate} (h : g.policy = .exclusive) (readOnly : Bool)

include h

theorem admits_exclusive :
    g.admits readOnly = true ↔ g.writer = false ∧ (readOnly = false → g.readers = 0) := by
  unfold admits
  cases readOnly <;> simp [h]

theorem enter_exclusive : g.enter readOnly =
    if readOnly then { g with readers := g.readers + 1 } else { g with writer := true } := by
  unfold enter
  cases readOnly <;> simp [h]

theorem leave_exclusive : g.leave readOnly =
    if readOnly then { g with readers := g.readers - 1 } else { g with writer := false } := by
  unfold leave
  cases readOnly <;> simp [h]

end Gate

namespace Region

theorem gate_foldl (r : Region) (batch : List Retirement) :
    (batch.foldl afterWait r).gate = r.gate := by
  induction batch generalizing r with
  | nil => rfl
  | cons e rest ih =>
    refine (ih _).trans ?_
    unfold afterWait
    split
    · rfl
    · rfl

/-- A pass of the collector lets nobody in or out. -/
theorem gate_collect (r : Region) : r.collect.2.gate = r.gate := gate_foldl ..

end Region

/-- Whoever ends leaves the gate, as one of its kind. -/
theorem Transaction.gate_conclusion (t : Transaction) (r : Region) (committed : Bool) :
    (t.conclusion r committed).gate = r.gate.leave t.isReadOnly := by
  have hgate : (t.rearranged r committed).gate = r.gate := by
    rw [(t.rearranges_rearranged r committed).rest,
      (r.settleWords_spec t.id committed t.touched).1.rest]
  cases committed with
  | true => simp only [conclusion, unpin, commit_eq, hgate, if_true]
  | false => simp only [conclusion, unpin, rollback_eq, hgate, Bool.false_eq_true, if_false]

namespace Session

variable {s s' : Session} {h k : Handle} {t t' u : Transaction} {r' : Region} {events : History}

/-! ## Who is open, by kind -/

def readers (s : Session) : Nat :=
  s.transactions.toList.countP fun o => o.any Transaction.isReadOnly

/-- Transaction `h` is open and can write. -/
def Writing (s : Session) (h : Handle) : Prop := ∃ t, s.open? h = some t ∧ t.isReadOnly = false

/-- The number of readers changes with the transaction that is put back. -/
theorem readers_put {o : Option Transaction} (ho : s.open? h = some t) :
    (s.put h o r').readers =
      s.readers - (if t.isReadOnly then 1 else 0)
        + (if o.any Transaction.isReadOnly then 1 else 0) := by
  obtain ⟨hlt, hget⟩ := Array.getElem?_eq_some_iff.1 (getElem?_of_open ho)
  unfold readers put
  rw [Array.toList_setIfInBounds, List.countP_set (by simpa using hlt)]
  simp [hget]

theorem readers_pos (ho : s.open? h = some t) (hro : t.isReadOnly = true) : 0 < s.readers := by
  have hmem : some t ∈ s.transactions.toList :=
    Array.mem_toList_iff.2 (Array.mem_of_getElem? (getElem?_of_open ho))
  exact List.countP_pos_iff.2 ⟨some t, hmem, hro⟩

/-- A transaction that goes on in its mode counts as before. -/
theorem readers_put_some (ho : s.open? h = some t) (hmode : t'.mode = t.mode) :
    (s.put h (some t') r').readers = s.readers := by
  have hsame : t'.isReadOnly = t.isReadOnly := by rw [Transaction.isReadOnly, hmode]; rfl
  rw [readers_put ho, Option.any_some, hsame]
  by_cases hro : t.isReadOnly = true
  · have hpos := readers_pos ho hro
    rw [if_pos hro]
    omega
  · rw [if_neg hro]
    omega

/-- The same transactions are open, and in their modes, after one has gone on. -/
theorem mode_put (ho : s.open? h = some t) (hmode : t'.mode = t.mode) (k : Handle) :
    ((s.put h (some t') r').open? k).map Transaction.mode
      = (s.open? k).map Transaction.mode := by
  by_cases hk : k = h
  · rw [hk, open?_put_self ho, ho, Option.map_some, Option.map_some, hmode]
  · rw [open?_put_ne hk]

theorem writing_congr (hmodes : (s'.open? k).map Transaction.mode
    = (s.open? k).map Transaction.mode) : s'.Writing k ↔ s.Writing k := by
  have hiff : ∀ s : Session, s.Writing k ↔
      ((s.open? k).map Transaction.mode).map Mode.isReadOnly = some false := by
    intro s
    rw [Option.map_map, Option.map_eq_some_iff]
    rfl
  rw [hiff, hiff, hmodes]

/-! ## What the gate keeps -/

/-- Under exclusive admission the gate agrees with who is open, and nobody is
    open beside a read-write transaction. -/
structure Gated (s : Session) : Prop extends s.Sound where
  freesLogged : s.FreesLogged
  policy : s.region.gate.policy = .exclusive
  readers : s.region.gate.readers = s.readers
  writer : s.region.gate.writer = true ↔ ∃ h, s.Writing h
  alone : ∀ h k t, s.Writing h → s.open? k = some t → k = h
  unobserved : ∀ h t, s.open? h = some t → t.observed = []
  givesUp : ∀ h, s.MayGiveUp h

/-- In a newly created session nobody is inside. -/
theorem gated_of_create {settings : Settings} (h : create settings = .ok s)
    (hexclusive : settings.admission = .exclusive) : s.Gated := by
  have hnobody : ∀ {k t}, s.open? k ≠ some t := by
    intro k t ho
    rw [open?_of_create h] at ho
    cases ho
  have hgate : s.region.gate = { policy := .exclusive } := by
    obtain ⟨r, hcreate, rfl⟩ := create_inv h
    obtain ⟨-, i, hallocate⟩ := Region.create_inv hcreate
    obtain ⟨table, -, rfl⟩ := Region.allocate?_inv hallocate
    rw [← hexclusive]
  constructor
  · exact sound_of_create h
  · exact freesLogged_of_create h
  · rw [hgate]
  · rw [hgate]
    simp [Session.readers, (new_of_create h).2]
  · rw [hgate]
    constructor
    · nofun
    · rintro ⟨k, t, ho, -⟩
      exact absurd ho hnobody
  · rintro k j t ⟨u, hu, -⟩
    exact absurd hu hnobody
  · exact fun k t ho => absurd ho hnobody
  · exact fun k t ho => absurd ho hnobody

namespace Gated

/-- Beside a read-write transaction, no word has an accessor. -/
theorem accessor_eq (hg : s.Gated) (ho : s.open? h = some t) (hrw : t.isReadOnly = false)
    {ref : WordRef} {c : Cell} (hc : s.region.cell? ref = some c) {id : TransactionId}
    (hid : c.accessor = some id) : id = t.id := by
  obtain ⟨k, u, hu, hmode, -⟩ := hg.accessors ref c id hc hid
  have hk := hg.alone h k u ⟨t, ho, hrw⟩ hu
  rw [hk, ho] at hu
  cases hu
  rw [Transaction.id, hmode]
  rfl

/-- A read-write transaction finds no mark of anybody else. -/
theorem uncontested (hg : s.Gated) (ho : s.open? h = some t) (hrw : t.isReadOnly = false) :
    t.Uncontested s.region where
  words := fun ref c hc =>
    ⟨fun _ hid => hg.accessor_eq ho hrw hc hid, fun hpending => hg.pending ref c hc hpending⟩
  slots := by
    intro i n hi
    obtain ⟨k, u, hu, hmem⟩ := hg.freesLogged i n hi
    have hk := hg.alone h k u ⟨t, ho, hrw⟩ hu
    rw [hk, ho] at hu
    cases hu
    exact hmem

/-- What a read-write transaction has to hold to give up, nobody else has to. -/
theorem mayGiveUp_put (hg : s.Gated) (ho : s.open? h = some t) (hrw : t.isReadOnly = false)
    (hown : ∀ i ∈ t'.allocated, (∃ n, r'.table.lookup i = .live n) ∨
      (i ∈ t'.freed ∧ ∃ n, r'.table.lookup i = .freeing n)) (k : Handle) :
    (s.put h (some t') r').MayGiveUp k := by
  intro u hu
  by_cases hk : k = h
  · rw [hk, open?_put_self ho] at hu
    cases hu
    exact hown
  · exact absurd (hg.alone h k u ⟨t, ho, hrw⟩ ((open?_put_ne hk).symm.trans hu)) hk

/-- What is left to show when one transaction goes on. -/
theorem put (hg : s.Gated) (ho : s.open? h = some t)
    (e : Effect True s events (s.put h (some t') r')) (hmode : t'.mode = t.mode)
    (hgate : r'.gate = s.region.gate) (hobserved : t'.observed = [])
    (hgives : ∀ k, (s.put h (some t') r').MayGiveUp k) : (s.put h (some t') r').Gated := by
  have hwriting : ∀ k, (s.put h (some t') r').Writing k ↔ s.Writing k := fun k =>
    writing_congr (mode_put ho hmode k)
  constructor
  · exact hg.toSound.effect e
  · exact hg.freesLogged.effect hg.toSound e
  · rw [region_put, hgate]
    exact hg.policy
  · rw [region_put, hgate, readers_put_some ho hmode]
    exact hg.readers
  · rw [region_put, hgate, hg.writer]
    exact exists_congr fun k => (hwriting k).symm
  · intro j k u hj hu
    by_cases hk : k = h
    · exact hg.alone j k t ((hwriting j).1 hj) (hk ▸ ho)
    · exact hg.alone j k u ((hwriting j).1 hj) ((open?_put_ne hk).symm.trans hu)
  · intro k u hu
    by_cases hk : k = h
    · rw [hk, open?_put_self ho] at hu
      cases hu
      exact hobserved
    · exact hg.unobserved k u ((open?_put_ne hk).symm.trans hu)
  · exact hgives

/-- An access to a word. -/
theorem accessed (hg : s.Gated) (ho : s.open? h = some t) (hrw : t.isReadOnly = false)
    {a : Access} {i : Nat} (hfound : (s.region.table.lookup i).segment? = some a.ref.segment)
    (hstep : t.WordStep s.region a t' r') : (s.put h (some t') r').Gated := by
  have e : Effect True s _ _ := .accessed ho hrw hfound hstep
  obtain ⟨c, c', g, hc, hbecomes, hgrants, rfl, -⟩ := hstep.inv
  have hsame := hbecomes.toSameButWords
  refine hg.put ho e (t.mode_log ..) (by rw [hsame.rest]) ?_ (hg.mayGiveUp_put ho hrw ?_)
  · cases g with
    | claimed => exact hg.unobserved h t ho
    | owned => exact hg.unobserved h t ho
    | observed seq =>
      -- The accessor of an observed word is somebody else.
      obtain ⟨-, -, u, hne, hu⟩ := hgrants
      exact absurd (hg.accessor_eq ho hrw hc hu) hne
  · rw [hsame.table_eq, Transaction.allocated_log, Transaction.freed_log]
    exact hg.givesUp h t ho

/-- A transaction is doomed. -/
theorem doomed (hg : s.Gated) (ho : s.open? h = some t) :
    (s.put h (some t.doom) s.region).Gated := by
  refine hg.put ho (.doomed ho) rfl rfl (hg.unobserved h t ho) fun k u hu => ?_
  by_cases hk : k = h
  · rw [hk, open?_put_self ho] at hu
    cases hu
    exact hg.givesUp h t ho
  · exact hg.givesUp k u ((open?_put_ne hk).symm.trans hu)

/-- An allocation. -/
theorem allocated (hg : s.Gated) (ho : s.open? h = some t) (hrw : t.isReadOnly = false)
    {size i : Nat} (hwhole : s.region.wordSize ∣ size)
    (hgranted : s.region.allocate? size = some (i, r')) :
    (s.put h (some { t with allocated := i :: t.allocated }) r').Gated := by
  have hgrows := Region.grows_of_allocate? hgranted
  have hgate : r'.gate = s.region.gate := by
    obtain ⟨table, -, rfl⟩ := Region.allocate?_inv hgranted
    rfl
  refine hg.put ho (.allocated ho hrw hwhole hgranted) rfl hgate (hg.unobserved h t ho)
    (hg.mayGiveUp_put ho hrw fun j hj => ?_)
  by_cases hji : j = i
  · rw [hji]
    exact .inl ⟨_, hgrows.self⟩
  · rw [hgrows.others j hji]
    exact hg.givesUp h t ho j ((List.mem_cons.1 hj).resolve_left hji)

/-- A free. -/
theorem freed (hg : s.Gated) (ho : s.open? h = some t) (hrw : t.isReadOnly = false) {i n : Nat}
    (hlive : s.region.table.lookup i = .live n) (hremovable : i ≠ Region.permanentSlot) :
    (s.put h (some { t with freed := i :: t.freed })
      { s.region with table := s.region.table.mark i }).Gated := by
  have hmoves := Region.moves_mark hg.slotted hlive
  refine hg.put ho (.freed ho hrw hlive hremovable) rfl rfl (hg.unobserved h t ho)
    (hg.mayGiveUp_put ho hrw fun j hj => ?_)
  by_cases hji : j = i
  · -- The slot is now in the log of frees, too.
    rw [hji, hmoves.lookup_of_mem (List.mem_singleton.2 rfl), hlive]
    exact .inr ⟨List.mem_cons_self, n, rfl⟩
  · rw [hmoves.lookup_of_not_mem (by simpa using hji)]
    exact (hg.givesUp h t ho j hj).imp_right fun hand =>
      ⟨List.mem_cons_of_mem _ hand.1, hand.2⟩

/-- The end of a transaction. -/
theorem ended (hg : s.Gated) (ho : s.open? h = some t) {committed : Bool}
    (hvalid : committed = true → t.doomed = false ∧ t.observationsHold s.region = true) :
    (s.put h none (t.conclusion s.region committed)).Gated := by
  have e : Effect True s _ _ := .ended ho hvalid fun _ _ => hg.givesUp h
  have hleave := Gate.leave_exclusive hg.policy t.isReadOnly
  have hreaders : (s.put h none (t.conclusion s.region committed)).readers
      = s.readers - if t.isReadOnly then 1 else 0 := readers_put ho
  have hleft : ∀ {k}, (s.put h none (t.conclusion s.region committed)).Writing k ↔
      s.Writing k ∧ k ≠ h := by
    intro k
    constructor
    · rintro ⟨u, hu, hrw⟩
      obtain ⟨hu, hk⟩ := open?_of_put_none ho hu
      exact ⟨⟨u, hu, hrw⟩, hk⟩
    · rintro ⟨⟨u, hu, hrw⟩, hk⟩
      exact ⟨u, (open?_put_ne hk).trans hu, hrw⟩
  constructor
  · exact hg.toSound.effect e
  · exact hg.freesLogged.effect hg.toSound e
  · rw [region_put, Transaction.gate_conclusion, Gate.policy_leave]
    exact hg.policy
  · rw [region_put, Transaction.gate_conclusion, hreaders, hleave]
    cases hro : t.isReadOnly with
    | true => simpa using congrArg (· - 1) hg.readers
    | false => simpa using hg.readers
  · rw [region_put, Transaction.gate_conclusion, hleave]
    cases hro : t.isReadOnly with
    | true =>
      -- The one that has ended was no writer.
      refine hg.writer.trans (exists_congr fun k => ?_)
      rw [hleft]
      refine ⟨fun hk => ⟨hk, ?_⟩, And.left⟩
      rintro rfl
      obtain ⟨u, hu, hrw⟩ := hk
      rw [ho] at hu
      cases hu
      rw [hro] at hrw
      cases hrw
    | false =>
      -- The one that has ended was the only one.
      constructor
      · nofun
      · rintro ⟨k, hk⟩
        obtain ⟨⟨u, hu, -⟩, hne⟩ := hleft.1 hk
        exact absurd (hg.alone h k u ⟨t, ho, hro⟩ hu) hne
  · intro j k u hj hu
    exact hg.alone j k u (hleft.1 hj).1 (open?_of_put_none ho hu).1
  · intro k u hu
    exact hg.unobserved k u (open?_of_put_none ho hu).1
  · intro k u hu i hi
    obtain ⟨hu, hk⟩ := open?_of_put_none ho hu
    -- Whoever has allocated something was open alone.
    have hrw : u.isReadOnly = false := by
      refine Bool.eq_false_iff.2 fun hro => ?_
      rw [((hg.logged k u hu).readers hro).2.2.1] at hi
      cases hi
    exact absurd (hg.alone k h t ⟨u, hu, hrw⟩ ho) (Ne.symm hk)

/-- A collection. -/
theorem collected (hg : s.Gated) : Gated { s with region := s.region.collect.2 } := by
  have e : Effect True s _ _ := .collected
  have hused := (Region.collect_spec hg.slotted hg.inOrder hg.tallies).used
  constructor
  · exact hg.toSound.effect e
  · exact hg.freesLogged.effect hg.toSound e
  · exact (congrArg Gate.policy s.region.gate_collect).trans hg.policy
  · exact (congrArg Gate.readers s.region.gate_collect).trans hg.readers
  · exact (congrArg (Gate.writer · = true) s.region.gate_collect).to_iff.trans hg.writer
  · exact hg.alone
  · exact hg.unobserved
  · -- Nobody loses a slot that is in use.
    intro k u hu i hi
    rcases hg.givesUp k u hu i hi with ⟨n, hn⟩ | ⟨hmem, n, hn⟩
    · exact .inl ⟨n, (hused i (by rw [hn]; rfl)).trans hn⟩
    · exact .inr ⟨hmem, n, (hused i (by rw [hn]; rfl)).trans hn⟩

/-- An attempt to allocate that fails. -/
theorem missed {r' : Region} (hg : s.Gated) (fails : s.region.Fails r') :
    Gated { s with region := r' } := by
  have e : Effect True s _ _ := .missed fails
  have hsound := hg.toSound.effect e
  have hlogged := hg.freesLogged.effect hg.toSound e
  obtain ⟨table, hlookup, rfl⟩ := fails.inv
  constructor
  · exact hsound
  · exact hlogged
  · exact hg.policy
  · exact hg.readers
  · exact hg.writer
  · exact hg.alone
  · exact hg.unobserved
  · intro k u hu i hi
    rcases hg.givesUp k u hu i hi with ⟨n, hn⟩ | ⟨hmem, n, hn⟩
    · exact .inl ⟨n, (hlookup i).trans hn⟩
    · exact .inr ⟨hmem, n, (hlookup i).trans hn⟩

/-- Whatever is done to those who are open, the gate goes on agreeing with who is. -/
theorem effect (hg : s.Gated) (e : Effect True s events s') (hold : ∀ k, .began k ∉ events) :
    s'.Gated := by
  cases e with
  | began identified => exact absurd List.mem_cons_self (hold _)
  | accessed isOpen readWrite found step => exact hg.accessed isOpen readWrite found step
  | doomed isOpen => exact hg.doomed isOpen
  | allocated isOpen readWrite whole granted => exact hg.allocated isOpen readWrite whole granted
  | missed fails => exact hg.missed fails
  | freed isOpen readWrite live removable => exact hg.freed isOpen readWrite live removable
  | ended isOpen valid gives => exact hg.ended isOpen valid
  | collected => exact hg.collected

/-- The beginning of a transaction: the gate lets it in only where it may be open. -/
theorem begin (hg : s.Gated) (readOnly : Bool) : (s.begin readOnly).2.Gated := by
  unfold Session.begin
  split
  case isFalse => exact hg
  case isTrue hadmits =>
    split
    next => exact hg
    next mode region hidentified =>
      have e : Effect True s _ _ := .began hidentified
      have hb := begins_enter hidentified
      obtain ⟨hregion, -⟩ := identify?_inv hidentified
      have hkind := isReadOnly_of_identify? hidentified
      have hgate : (enter { s with region } mode).2.region.gate = s.region.gate.enter readOnly := by
        show region.gate.enter mode.isReadOnly = _
        rw [hkind, hregion]
      obtain ⟨hwriter, hreaders⟩ := (Gate.admits_exclusive hg.policy readOnly).1 hadmits
      -- Nobody is writing, and beside a new writer nobody is open at all.
      have hquiet : ∀ k, ¬ s.Writing k := by
        intro k hk
        rw [hg.writer.2 ⟨k, hk⟩] at hwriter
        cases hwriter
      have hempty : readOnly = false → ∀ k t, s.open? k ≠ some t := by
        intro hrw k t ho
        by_cases hro : t.isReadOnly = true
        · have hpos := readers_pos ho hro
          rw [← hg.readers, hreaders hrw] at hpos
          exact Nat.lt_irrefl 0 hpos
        · exact hquiet k ⟨t, ho, Bool.eq_false_iff.2 hro⟩
      constructor
      · exact hg.toSound.effect e
      · exact hg.freesLogged.effect hg.toSound e
      · rw [hgate, Gate.policy_enter]
        exact hg.policy
      · have hcount : (enter { s with region } mode).2.readers
            = s.readers + if readOnly then 1 else 0 := by
          unfold Session.readers enter
          rw [Array.toList_push, List.countP_append, ← hkind]
          cases mode <;> rfl
        rw [hgate, hcount, Gate.enter_exclusive hg.policy]
        cases readOnly with
        | true => exact congrArg (· + 1) hg.readers
        | false => exact hg.readers
      · rw [hgate, Gate.enter_exclusive hg.policy]
        cases readOnly with
        | true =>
          refine ⟨fun hw => absurd (hwriter.symm.trans hw) Bool.false_ne_true, ?_⟩
          rintro ⟨k, u, hu, hrw⟩
          rcases hb.before hu with hold | ⟨-, rfl⟩
          · exact absurd ⟨u, hold, hrw⟩ (hquiet k)
          · exact absurd (hkind.symm.trans hrw) (Bool.false_ne_true ·.symm)
        | false => exact ⟨fun _ => ⟨_, _, hb.self, hkind⟩, fun _ => rfl⟩
      · rintro j k u ⟨v, hv, hrw⟩ hu
        rcases hb.before hv with hold | ⟨hj, rfl⟩
        · exact absurd ⟨v, hold, hrw⟩ (hquiet j)
        · rcases hb.before hu with hold | ⟨hk, -⟩
          · exact absurd hold (hempty (hkind.symm.trans hrw) k u)
          · rw [hj, hk]
      · intro k u hu
        rcases hb.before hu with hold | ⟨-, rfl⟩
        · exact hg.unobserved k u hold
        · rfl
      · intro k u hu i hi
        rw [hb.table_eq]
        rcases hb.before hu with hold | ⟨-, rfl⟩
        · exact hg.givesUp k u hold i hi
        · cases hi

/-- Under exclusive admission, whatever is done is orderly. -/
theorem allows (hg : s.Gated) (operation : Operation) : s.Allows operation := by
  cases operation with
  | finish h => exact fun _ => hg.givesUp h
  | abandon h => exact hg.givesUp h
  | begin readOnly => trivial
  | read h a length => trivial
  | write h a bytes => trivial
  | alloc h size memory => trivial
  | free h a => trivial
  | abort h => trivial
  | collect => trivial

/-- What the effects of one operation keep, if the gate agrees with who is open
    and nobody begins, holds after all of them. -/
theorem induct {P : Session → Prop} (hg : s.Gated)
    (chain : Effects True s events s') (hold : ∀ k, .began k ∉ events) (start : P s)
    (step : ∀ {s events s'}, s.Gated → P s → Effect True s events s' →
      (∀ k, .began k ∉ events) → P s') : s'.Gated ∧ P s' := by
  induction chain with
  | nil => exact ⟨hg, start⟩
  | snoc before last ih =>
    obtain ⟨hg', hP⟩ := ih fun k hk => hold k (List.mem_append_right _ hk)
    have hlast := fun k hk => hold k (List.mem_append_left _ hk)
    exact ⟨hg'.effect last hlast, step hg' hP last hlast⟩

end Gated

/-- Only a beginning adds one to the history. -/
theorem not_began_of_mem_events (s : Session) {operation : Operation}
    (hother : ∀ readOnly, operation ≠ .begin readOnly) (k : Handle) :
    .began k ∉ s.events operation := by
  have haccesses : ∀ h kind a bytes, .began k ∉ s.accesses h kind a bytes := by
    intro h kind a bytes hmem
    unfold accesses at hmem
    split at hmem
    · cases hmem
    · obtain ⟨_, _, heq⟩ := List.mem_map.1 (List.mem_reverse.1 hmem)
      cases heq
  intro hmem
  cases operation with
  | begin readOnly => exact absurd rfl (hother readOnly)
  | read h a length =>
    simp only [events] at hmem
    split at hmem
    · split at hmem
      · cases hmem
      · exact haccesses _ _ _ _ hmem
    · cases hmem
  | write h a bytes =>
    simp only [events] at hmem
    split at hmem
    · exact haccesses _ _ _ _ hmem
    · cases hmem
  | finish h =>
    simp only [events] at hmem
    split at hmem
    · cases List.mem_singleton.1 hmem
    · cases hmem
  | abandon h =>
    simp only [events] at hmem
    split at hmem
    · cases List.mem_singleton.1 hmem
    · cases hmem
  | alloc h size memory => cases hmem
  | free h a => cases hmem
  | abort h => cases hmem
  | collect => cases hmem

namespace Gated

/-- A step keeps the gate in agreement with who is open. -/
theorem step (hg : s.Gated) (operation : Operation) : (s.step operation).2.Gated := by
  by_cases hbegin : ∃ readOnly, operation = .begin readOnly
  · obtain ⟨readOnly, rfl⟩ := hbegin
    exact hg.begin readOnly
  · have hother : ∀ readOnly, operation ≠ .begin readOnly := fun readOnly heq =>
      hbegin ⟨readOnly, heq⟩
    have hchain : Effects True s _ _ :=
      effects_step hg.toSteady operation fun _ => hg.allows operation
    exact (hg.induct (P := fun _ => True) hchain (s.not_began_of_mem_events hother) trivial
      fun _ _ _ _ => trivial).1

/-- And so does a run, which is orderly. -/
theorem run (hg : s.Gated) (operations : List Operation) :
    s.Orderly operations ∧ (s.run operations).2.Gated := by
  induction operations generalizing s with
  | nil => exact ⟨trivial, hg⟩
  | cons operation rest ih =>
    obtain ⟨horderly, hgated⟩ := ih (hg.step operation)
    exact ⟨⟨hg.allows operation, horderly⟩, hgated⟩

end Gated

end Session

end TransactionalMemory
