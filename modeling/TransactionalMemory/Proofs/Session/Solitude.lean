import TransactionalMemory.Proofs.Session.Admission
import TransactionalMemory.Proofs.Session.Dooming

/-! # What exclusive admission gives

    A read-write transaction that is open alone meets nobody's marks, so none of
    its operations is in conflict, and it commits unless it has itself failed or
    given up. When it ends it takes its own marks back, so the next one finds
    none either, whatever has come in between.

    While read-only transactions are open, nothing is written and nothing is
    freed. A collection may still release what had left use before. So the
    region only fades: slots are emptied and segments released, and whatever is
    left is as it was. What a read-only transaction reads is therefore what was
    committed when it began. -/

namespace TransactionalMemory

/-! ## Regions that fade -/

namespace Region

variable {r r' r'' : Region} {a : Address} {length : Nat} {bytes : List UInt8}

/-- Slots may have been emptied and segments released, and all else about them is
    as it was; what was in use still is. -/
structure Fades (r r' : Region) : Prop where
  settings_eq : r'.settings = r.settings
  segments : ∀ n, r'.segment? n = r.segment? n ∨ r'.segment? n = none
  slots : ∀ i, r'.table.lookup i = r.table.lookup i ∨ r'.table.lookup i = .vacant
  used : ∀ i, (r.table.lookup i).isOccupied = true → r'.table.lookup i = r.table.lookup i

namespace Fades

/-- Nothing fades while the slots and the segments stay as they are. -/
theorem of_eq (hsettings : r'.settings = r.settings) (hsegments : r'.segments = r.segments)
    (htable : r'.table = r.table) : r.Fades r' where
  settings_eq := hsettings
  segments := fun n => .inl (by unfold segment?; rw [hsegments])
  slots := fun i => .inl (by rw [htable])
  used := fun i _ => by rw [htable]

theorem trans (h : r.Fades r') (h' : r'.Fades r'') : r.Fades r'' where
  settings_eq := h'.settings_eq.trans h.settings_eq
  segments := by
    intro n
    rcases h'.segments n with heq | hnone
    · rw [heq]
      exact h.segments n
    · exact .inr hnone
  slots := by
    intro i
    rcases h'.slots i with heq | hvacant
    · rw [heq]
      exact h.slots i
    · exact .inr hvacant
  used := by
    intro i hi
    have heq := h.used i hi
    exact (h'.used i (by rw [heq]; exact hi)).trans heq

end Fades

/-- The committed values of a range, if the address leads to a segment. -/
def committedRange? (r : Region) (a : Address) (length : Nat) : Option (List UInt8) :=
  (r.wordAt? a).bind fun first =>
    (r.segment? first.segment).map fun s =>
      Transaction.committedWords s first.word (length / r.wordSize)

end Region

namespace Session

variable {s s' : Session} {h k : Handle} {t u : Transaction} {events : History}

/-- The end of a read-only transaction changes neither slots nor segments. -/
theorem fades_conclusion (hs : s.Sound) (ho : s.open? h = some t) (hro : t.isReadOnly = true)
    (committed : Bool) : s.region.Fades (t.conclusion s.region committed) := by
  obtain ⟨htouched, -, hallocated, hfreed⟩ := (hs.logged h t ho).readers hro
  have hsame : t.rearranged s.region committed = s.region := by
    unfold Transaction.rearranged
    rw [htouched, hallocated, hfreed]
    cases committed <;> rfl
  obtain ⟨gate, commits, aborts, heq⟩ := t.conclusion_eq s.region committed
  rw [heq, hsame]
  exact .of_eq rfl rfl rfl

/-- While nobody can write, the region only fades, and nobody starts to write
    but by beginning. -/
theorem fades_effect (hs : s.Sound) (hquiet : ∀ k, ¬ s.Writing k) (e : Effect True s events s') :
    s.region.Fades s'.region ∧ ((∀ k, .began k ∉ events) → ∀ k, ¬ s'.Writing k) := by
  cases e with
  | began identified =>
    have hb := begins_enter identified
    exact ⟨.of_eq hb.settings_eq hb.segments_eq hb.table_eq,
      fun hold => absurd List.mem_cons_self (hold _)⟩
  | accessed isOpen readWrite found step => exact absurd ⟨_, isOpen, readWrite⟩ (hquiet _)
  | @doomed h t isOpen =>
    have hmode : t.doom.mode = t.mode := rfl
    exact ⟨.of_eq rfl rfl rfl,
      fun _ k hk => hquiet k ((writing_congr (mode_put isOpen hmode k)).1 hk)⟩
  | allocated isOpen readWrite whole granted => exact absurd ⟨_, isOpen, readWrite⟩ (hquiet _)
  | missed fails =>
    obtain ⟨table, hlookup, rfl⟩ := fails.inv
    exact ⟨⟨rfl, fun n => .inl rfl, fun i => .inl (hlookup i), fun i _ => hlookup i⟩,
      fun _ => hquiet⟩
  | freed isOpen readWrite live removable => exact absurd ⟨_, isOpen, readWrite⟩ (hquiet _)
  | @ended h t committed isOpen valid gives =>
    have hro : t.isReadOnly = true :=
      Bool.of_not_eq_false fun hrw => hquiet h ⟨t, isOpen, hrw⟩
    refine ⟨fades_conclusion hs isOpen hro committed, ?_⟩
    rintro - k ⟨u, hu, hrw⟩
    exact hquiet k ⟨u, (open?_of_put_none isOpen hu).1, hrw⟩
  | collected =>
    have hdrops := s.region.drops_collect
    exact ⟨⟨hdrops.settings_eq, hdrops.segments, s.region.lookup_collect,
      (Region.collect_spec hs.slotted hs.inOrder hs.tallies).used⟩, fun _ => hquiet⟩

/-- The same for a whole operation. -/
theorem Gated.fades_step (hg : s.Gated) (hquiet : ∀ k, ¬ s.Writing k) (operation : Operation) :
    s.region.Fades (s.step operation).2.region := by
  by_cases hbegin : ∃ readOnly, operation = .begin readOnly
  · obtain ⟨readOnly, rfl⟩ := hbegin
    change s.region.Fades (s.begin readOnly).2.region
    rcases s.begin_cases readOnly with hsame | ⟨t, hb⟩
    · rw [hsame]
      exact .of_eq rfl rfl rfl
    · exact .of_eq hb.settings_eq hb.segments_eq hb.table_eq
  · have hchain : Effects True s _ _ :=
      effects_step hg.toSteady operation fun _ => hg.allows operation
    have hkeeps := hg.induct (P := fun s' => s.region.Fades s'.region ∧ ∀ k, ¬ s'.Writing k) hchain
      (s.not_began_of_mem_events fun readOnly heq => hbegin ⟨readOnly, heq⟩)
      ⟨.of_eq rfl rfl rfl, hquiet⟩ fun hg' hP e hold => by
        obtain ⟨hfades, hquiet'⟩ := fades_effect hg'.toSound hP.2 e
        exact ⟨hP.1.trans hfades, hquiet' hold⟩
    exact hkeeps.2.1

/-- Beside a read-only transaction nobody can write. -/
theorem Gated.quiet (hg : s.Gated) (ho : s.open? h = some t) (hro : t.isReadOnly = true)
    (k : Handle) : ¬ s.Writing k := by
  rintro ⟨u, hu, hrw⟩
  have hk := hg.alone k h t ⟨u, hu, hrw⟩ ho
  rw [← hk, ho] at hu
  cases hu
  rw [hro] at hrw
  cases hrw

/-- As long as a read-only transaction is open, the region only fades. -/
theorem Gated.fades_run (hg : s.Gated) (ho : s.open? h = some t) (hro : t.isReadOnly = true)
    {operations : List Operation} (hu : (s.run operations).2.open? h = some u) :
    s.region.Fades (s.run operations).2.region := by
  induction operations generalizing s t with
  | nil => exact .of_eq rfl rfl rfl
  | cons operation rest ih =>
    have hfirst : Effects True s _ (s.step operation).2 :=
      effects_step hg.toSteady operation fun _ => hg.allows operation
    have hg' := hg.step operation
    have hrest : Effects True (s.step operation).2 _ ((s.step operation).2.run rest).2 :=
      effects_record hg'.toSteady rest fun _ => (hg'.run rest).1
    -- Whoever is open at the end has been open in between.
    obtain ⟨v, hv, -⟩ := open_before hrest
      (Nat.lt_of_lt_of_le (lt_size_of_open ho) (size_effects hfirst)) hu
    have hmode := (continues_effects hfirst ho hv).mode_eq
    have hlater := ih hg' hv (by rw [Transaction.isReadOnly, hmode]; exact hro) hu
    exact (hg.fades_step (hg.quiet ho hro) operation).trans hlater

/-! ## Conflicts -/

/-- Under exclusive admission, no operation is in conflict with anybody. -/
theorem Gated.not_conflict (hg : s.Gated) (operation : Operation) (b : Address) :
    (s.step operation).1.failure? ≠ some (.conflict b) := by
  have hfree : ∀ {h t}, s.open? h = some t → t.isReadOnly = false → t.Uncontested s.region :=
    fun ho hrw => hg.uncontested ho hrw
  -- Only an open transaction gets an answer from an operation inside it.
  have haccess : ∀ {α : Type} (k : Handle) (op : Transaction → Region → Outcome α),
      (∀ t failure, s.open? k = some t → (op t s.region).value = .error failure →
        failure ≠ .conflict b) →
      (s.access k op).1 ≠ some (.error (.conflict b)) := by
    intro α k op hop hvalue
    cases ho : s.open? k with
    | none => simp [access, ho] at hvalue
    | some t =>
      rw [access_of_open _ ho] at hvalue
      exact hop t _ ho (Option.some.inj hvalue) rfl
  cases operation with
  | begin readOnly =>
    show (Answer.begun (s.begin readOnly).1).failure? ≠ _
    intro hfailure
    cases begin_refused (Answer.failure?_begun.1 hfailure)
  | read k a length =>
    refine mt Answer.failure?_bytes.1
      (haccess k (fun t r => t.read r a length) fun t failure ho herror => ?_)
    exact Transaction.read_not_conflict hg.shaped (hfree ho) herror b
  | write k a bytes =>
    refine mt Answer.failure?_done.1
      (haccess k (fun t r => t.write r a bytes) fun t failure ho herror => ?_)
    exact Transaction.write_not_conflict hg.shaped (hfree ho) herror b
  | alloc k size memory =>
    refine mt Answer.failure?_allocated.1
      (haccess k (fun t r => t.alloc r size memory) fun t failure ho herror => ?_)
    exact Transaction.alloc_not_conflict herror b
  | free k a =>
    refine mt Answer.failure?_done.1
      (haccess k (fun t r => t.free r a) fun t failure ho herror => ?_)
    exact Transaction.free_not_conflict (hfree ho) herror b
  | abort k => exact (Option.some_ne_none _).symm
  | finish k => exact (Option.some_ne_none _).symm
  | abandon k => exact (Option.some_ne_none _).symm
  | collect => exact (Option.some_ne_none _).symm

/-! ## Marks -/

/-- Nobody observes anything, so every observation holds. -/
theorem Gated.observationsHold (hg : s.Gated) (ho : s.open? h = some t) :
    t.observationsHold s.region = true := by
  rw [Transaction.observationsHold, hg.unobserved h t ho]
  rfl

/-- While nobody can write, no word is claimed. -/
theorem Gated.unclaimed (hg : s.Gated) (hquiet : ∀ h, ¬ s.Writing h) {ref : WordRef} {c : Cell}
    (hc : s.region.cell? ref = some c) : c.accessor = none ∧ c.pending = none := by
  have haccessor : c.accessor = none := by
    refine Option.eq_none_iff_forall_ne_some.2 fun id hid => ?_
    obtain ⟨h, t, ho, hmode, -⟩ := hg.accessors ref c id hc hid
    exact hquiet h ⟨t, ho, by rw [Transaction.isReadOnly, hmode]; rfl⟩
  exact ⟨haccessor, Decidable.not_not.1 fun hpending => hg.pending ref c hc hpending haccessor⟩

/-- While nobody can write, no slot is marked as being freed. -/
theorem Gated.unmarked (hg : s.Gated) (hquiet : ∀ h, ¬ s.Writing h) {i n : Nat} :
    s.region.table.lookup i ≠ .freeing n := by
  intro hi
  obtain ⟨h, t, ho, hmem⟩ := hg.freesLogged i n hi
  have hro : t.isReadOnly = true := Bool.of_not_eq_false fun hrw => hquiet h ⟨t, ho, hrw⟩
  rw [((hg.logged h t ho).readers hro).2.2.2] at hmem
  cases hmem

/-! ## The whole run -/

/-- What is so after a run under exclusive admission. -/
structure Undisturbed (start : Session) (operations : List Operation) : Prop where
  /-- Nobody who is open can write, or one transaction is open, which can. -/
  admitted : (∀ h, ¬ (start.run operations).2.Writing h) ∨
    ∃ h, (start.run operations).2.Writing h ∧
      ∀ k t, (start.run operations).2.open? k = some t → k = h
  /-- No operation that may come next fails with a conflict. -/
  unopposed : ∀ operation b,
    ((start.run operations).2.step operation).1.failure? ≠ some (.conflict b)
  /-- Every observation of an open transaction holds. -/
  valid : ∀ h t, (start.run operations).2.open? h = some t →
    t.observationsHold (start.run operations).2.region = true
  /-- Whoever has not been doomed by its own operations commits if it ends now. -/
  commits : ∀ h, ((start.run operations).2.open? h).isSome → start.Spares h operations →
    ((start.run operations).2.finish h).1 = some true
  /-- If nobody can write, no word has an accessor or a pending write, -/
  unclaimed : (∀ h, ¬ (start.run operations).2.Writing h) →
    ∀ n seg w, (start.run operations).2.region.segment? n = some seg → w < seg.words →
      (seg.control w).accessor = none ∧ (seg.control w).written = false
  /-- and no slot is marked as being freed. -/
  unmarked : (∀ h, ¬ (start.run operations).2.Writing h) →
    ∀ i n, (start.run operations).2.region.table.lookup i ≠ .freeing n
  /-- What a read-only transaction reads was committed when it began. -/
  values : ∀ before after h, operations = before ++ .begin true :: after →
    ((start.run before).2.begin true).1 = .started h →
      ∀ a length bytes, ((start.run operations).2.read h a length).1 = some (.ok bytes) →
        (start.run before).2.region.committedRange? a length = some bytes
  /-- It can read whatever was in use then. -/
  served : ∀ before after h, operations = before ++ .begin true :: after →
    ((start.run before).2.begin true).1 = .started h →
      ∀ t, (start.run operations).2.open? h = some t → t.doomed = false →
        ∀ a i length, a.slot? = some i →
          ((start.run before).2.region.table.lookup i).isOccupied = true →
          (start.run before).2.Inside a length →
            ∃ bytes, ((start.run operations).2.read h a length).1 = some (.ok bytes)

/-- A transaction that has begun read-only reads the region of that time, as far
    as it has not faded. -/
theorem Gated.fades_since (hg : s.Gated) {t : Transaction} {after : List Operation}
    (hbegin : (s.begin true).1 = .started h)
    (ho : ((s.begin true).2.run after).2.open? h = some t) :
    t.isReadOnly = true ∧ s.region.Fades ((s.begin true).2.run after).2.region := by
  have hg' := hg.begin true
  obtain ⟨t₀, ho₀, hro⟩ := begin_started hbegin
  have hafter : Effects True _ _ _ := effects_record hg'.toSteady after fun _ => (hg'.run after).1
  have hfirst : s.region.Fades (s.begin true).2.region := by
    rcases s.begin_cases true with hsame | ⟨u, hb⟩
    · rw [hsame]
      exact .of_eq rfl rfl rfl
    · exact .of_eq hb.settings_eq hb.segments_eq hb.table_eq
  refine ⟨?_, hfirst.trans (hg'.fades_run ho₀ hro ho)⟩
  rw [Transaction.isReadOnly, (continues_effects hafter ho₀ ho).mode_eq]
  exact hro

/-- What a read-only transaction reads in a region that has faded was committed before. -/
theorem committedRange?_of_fades {r : Region} (hfades : r.Fades s.region)
    (ho : s.open? h = some t) (hro : t.isReadOnly = true) {a : Address} {length : Nat}
    {bytes : List UInt8} (hread : (s.read h a length).1 = some (.ok bytes)) :
    r.committedRange? a length = some bytes := by
  rw [Session.read, access_of_open _ ho] at hread
  obtain ⟨slot, first, seg, hresolved, hseg, rfl⟩ :=
    Transaction.value_of_readOnly hro (Option.some.inj hread)
  have hwordSize := Region.wordSize_congr hfades.settings_eq
  -- The slot is not empty and the segment is not released, so both are as they were.
  have hslot : s.region.table.lookup slot = r.table.lookup slot := by
    refine (hfades.slots slot).resolve_right fun hvacant => ?_
    have hholds := hresolved.holds
    rw [hvacant] at hholds
    cases hholds
  have hsegment : s.region.segment? first.segment = r.segment? first.segment := by
    refine (hfades.segments first.segment).resolve_right fun hnone => ?_
    rw [hnone] at hseg
    cases hseg
  have hword : r.wordAt? a = some first := by
    rw [← hresolved.wordAt?_eq]
    unfold Region.wordAt?
    simp only [hresolved.slot_eq, hslot, hwordSize]
  rw [Region.committedRange?, hword, Option.bind_some, ← hsegment, hseg, hwordSize]
  rfl

/-- A read-only transaction can still read what was in use before the region has faded. -/
theorem read_of_fades {r : Region} (hs : s.Steady) (hfades : r.Fades s.region)
    (ho : s.open? h = some t) (hro : t.isReadOnly = true) (hundoomed : t.doomed = false)
    {a : Address} {i length : Nat} (ha : a.slot? = some i)
    (hused : (r.table.lookup i).isOccupied = true)
    (hinside : ∀ n seg, (r.table.lookup i).segment? = some n → r.segment? n = some seg →
      Transaction.inBounds r.wordSize seg.size a.offset length = true) :
    ∃ bytes, (s.read h a length).1 = some (.ok bytes) := by
  obtain ⟨n, hn⟩ : ∃ n, (r.table.lookup i).segment? = some n := by
    cases hlookup : r.table.lookup i <;> simp_all [Slot.isOccupied, Slot.segment?]
  have hn' : (s.region.table.lookup i).segment? = some n := by rwa [hfades.used i hused]
  obtain ⟨seg, hseg⟩ := hs.backed.exists_segment hn'
  have hsegment : r.segment? n = some seg := by
    rw [← hseg]
    refine ((hfades.segments n).resolve_right fun hnone => ?_).symm
    rw [hnone] at hseg
    cases hseg
  have hin : Transaction.inBounds s.region.wordSize seg.size a.offset length = true := by
    rw [Region.wordSize_congr hfades.settings_eq]
    exact hinside n seg hn hsegment
  have hread := Transaction.read_of_readOnly hro hundoomed ha hn' hseg hin
  exact ⟨_, by rw [Session.read, access_of_open _ ho]; exact congrArg some hread⟩

/-- Under exclusive admission transactions do not disturb one another, whatever
    is done and in whatever order. -/
theorem run_undisturbed {settings : Settings} {start : Session}
    (hcreate : create settings = .ok start) (hexclusive : settings.admission = .exclusive)
    (operations : List Operation) : Undisturbed start operations := by
  have hgated := gated_of_create hcreate hexclusive
  obtain ⟨-, hg⟩ := hgated.run operations
  constructor
  case admitted =>
    by_cases hwriting : ∃ h, (start.run operations).2.Writing h
    · obtain ⟨h, hw⟩ := hwriting
      exact .inr ⟨h, hw, fun k t => hg.alone h k t hw⟩
    · exact .inl fun h hw => hwriting ⟨h, hw⟩
  case unopposed => exact hg.not_conflict
  case valid => exact fun h t => hg.observationsHold
  case commits =>
    intro h hopen hspared
    obtain ⟨t, ho⟩ := Option.isSome_iff_exists.1 hopen
    have hundoomed := undoomed_run (fun t ho => ?_) hspared t ho
    · rw [finish_of_open ho, hundoomed, hg.observationsHold ho]
      rfl
    · rw [open?_of_create hcreate] at ho
      cases ho
  case unclaimed =>
    intro hquiet n seg w hseg hw
    have hcell : (start.run operations).2.region.cell? ⟨n, w⟩ = some (seg.cell w) :=
      Region.cell?_eq_some_iff.2 ⟨seg, hseg, hw, rfl⟩
    obtain ⟨haccessor, hpending⟩ := hg.unclaimed hquiet hcell
    exact ⟨haccessor, by simpa [Segment.cell] using hpending⟩
  case unmarked => exact fun hquiet i n => hg.unmarked hquiet
  case values =>
    rintro before after h rfl hbegin a length bytes hread
    obtain ⟨-, hbefore⟩ := hgated.run before
    rw [run_cut] at hread
    cases ho : ((((start.run before).2.step (.begin true)).2.run after).2).open? h with
    | none =>
      rw [Session.read, access, ho] at hread
      cases hread
    | some t =>
      obtain ⟨hro, hfades⟩ := hbefore.fades_since hbegin ho
      exact committedRange?_of_fades hfades ho hro hread
  case served =>
    rintro before after h rfl hbegin t ho hundoomed a i length ha hused hinside
    obtain ⟨-, hbefore⟩ := hgated.run before
    rw [run_cut] at ho hg ⊢
    obtain ⟨hro, hfades⟩ := hbefore.fades_since hbegin ho
    exact read_of_fades hg.toSteady hfades ho hro hundoomed ha hused fun n seg => hinside i n seg ha

/-- A writer commits; the next one writes, frees the new segment and gives up.
    While each of them is open, somebody else is not let in. -/
def afterRollback : List Operation :=
  [.begin false, .alloc 0 8 true, .write 0 (.ofParts 1 0) [1, 2, 3, 4, 5, 6, 7, 8], .begin true,
    .finish 0, .begin false, .write 1 (.ofParts 1 0) [8, 7, 6, 5, 4, 3, 2, 1],
    .free 1 (.ofParts 1 0), .begin false, .abort 1, .abandon 1]

/-- Another reader comes and goes, and a writer is not let in. -/
def besideReader : List Operation :=
  [.begin true, .read 3 (.ofParts 1 0) 8, .begin false, .finish 3, .collect]

/-- What a reader reads after a rollback is what was committed, and it commits. -/
theorem run_undisturbed_after_rollback :
    ∃ start, create { size := 16, align := 8, admission := .exclusive } = .ok start ∧
      Undisturbed start (afterRollback ++ .begin true :: besideReader) ∧
      ((start.run (afterRollback ++ .begin true :: besideReader)).2.finish 2).1 = some true ∧
      (start.run afterRollback).2.region.committedRange? (.ofParts 1 0) 8
        = some [1, 2, 3, 4, 5, 6, 7, 8] := by
  refine ⟨_, rfl, ?_⟩
  have h := @run_undisturbed { size := 16, align := 8, admission := .exclusive } _ rfl rfl
    (afterRollback ++ .begin true :: besideReader)
  refine ⟨h, h.commits 2 (by decide +kernel) (by decide +kernel), ?_⟩
  exact h.values afterRollback besideReader 2 rfl (by decide +kernel) (.ofParts 1 0) 8
      [1, 2, 3, 4, 5, 6, 7, 8] (by decide +kernel)

end Session

end TransactionalMemory
