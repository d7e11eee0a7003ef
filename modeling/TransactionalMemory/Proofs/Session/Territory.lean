import Mathlib.Data.List.Induction
import TransactionalMemory.Proofs.Session.Failures
import TransactionalMemory.Proofs.Session.Ownership

/-! # Which words and segments a transaction is about

    What a transaction accesses and frees can be told from its operations and
    their answers:

    - The operation asks for the words of its range. It has accessed all of them
      if it succeeds, and those before the address of the conflict if it fails
      with one.
    - It names the segment at its address, and has freed it if it is a free that
      succeeds.
    - An operation that fails for another reason than a conflict has tried to use
      nothing.

    Nothing else leads to a claim or to a mark: a word that an open transaction
    has claimed is one that its operations have accessed, and a slot that it
    marks as being freed holds a segment that they have freed. -/

namespace TransactionalMemory

/-- The words of a range, if it lies inside a segment. -/
def Region.span (r : Region) (a : Address) (length : Nat) : List WordRef :=
  match r.wordAt? a with
  | none => []
  | some first =>
    if Transaction.inBounds r.wordSize ((r.segment? first.segment).elim 0 Segment.size) a.offset
        length then
      (List.range (length / r.wordSize)).map fun j => ⟨first.segment, first.word + j⟩
    else []

/-- The words of a range that was resolved. -/
theorem Region.mem_span_iff {r : Region} {t : Transaction} {a : Address} {length slot : Nat}
    {first : WordRef} (hresolved : t.Resolved r a length slot first) (ref : WordRef) :
    ref ∈ r.span a length ↔ first.Within (length / r.wordSize) ref := by
  unfold Region.span
  rw [hresolved.wordAt?_eq]
  dsimp only
  rw [if_pos hresolved.inside, List.mem_map]
  constructor
  · rintro ⟨j, hj, rfl⟩
    have hlt := List.mem_range.1 hj
    exact ⟨rfl, Nat.le_add_right first.word j, Nat.add_lt_add_left hlt first.word⟩
  · obtain ⟨n, w⟩ := ref
    rintro ⟨hsegment, hlow, hhigh⟩
    dsimp only at hsegment hlow hhigh
    have hj : w - first.word < length / r.wordSize := by omega
    have hword : first.word + (w - first.word) = w := by omega
    exact ⟨w - first.word, List.mem_range.2 hj, by rw [hsegment, hword]⟩

namespace Session

variable {s start : Session} {h k : Handle} {t t' : Transaction} {operation : Operation}
  {operations : List Operation} {ref : WordRef}

/-! ## One operation -/

def askedWords (s : Session) (operation : Operation) : List WordRef :=
  match operation.address? with
  | none => []
  | some a => s.region.span a operation.length

/-- The words that an operation has accessed: all that it has asked for, or those
    before the conflict. -/
def accessedWords (s : Session) (operation : Operation) : List WordRef :=
  match (s.step operation).1.failure? with
  | none => s.askedWords operation
  | some (.conflict b) =>
    (s.askedWords operation).filter fun ref => ref.word * s.region.wordSize < b.offset
  | some _ => []

/-- The segment at the address of an operation. -/
def namedSegments (s : Session) (operation : Operation) : List Nat :=
  ((operation.address?.bind s.region.wordAt?).map WordRef.segment).toList

def freedSegments (s : Session) (operation : Operation) : List Nat :=
  match operation with
  | .free .. => if (s.step operation).1.failure? = none then s.namedSegments operation else []
  | .begin _ | .read .. | .write .. | .alloc .. | .abort _ | .finish _ | .abandon _ | .collect => []

/-- What an operation has tried to use of what it is about. -/
def tried {α : Type} (about : Session → Operation → List α) (s : Session)
    (operation : Operation) : List α :=
  match (s.step operation).1.failure? with
  | none | some (.conflict _) => about s operation
  | some _ => []

theorem tried_of_none {α : Type} (about : Session → Operation → List α)
    (hnone : (s.step operation).1.failure? = none) :
    tried about s operation = about s operation := by
  unfold tried
  rw [hnone]

theorem tried_of_conflict {α : Type} (about : Session → Operation → List α) {b : Address}
    (hconflict : (s.step operation).1.failure? = some (.conflict b)) :
    tried about s operation = about s operation := by
  unfold tried
  rw [hconflict]

/-- An address of a slot that holds a segment names that segment. -/
theorem mem_namedSegments {a : Address} {i n : Nat} (haddress : operation.address? = some a)
    (ha : a.slot? = some i) (hn : (s.region.table.lookup i).segment? = some n) :
    n ∈ s.namedSegments operation := by
  have hat : s.region.wordAt? a = some ⟨n, a.offset / s.region.wordSize⟩ := by
    unfold Region.wordAt?
    rw [ha]
    dsimp only
    rw [hn]
  unfold namedSegments
  rw [haddress, Option.bind_some, hat]
  exact List.mem_singleton.2 rfl

/-- The words of a range inside a segment are asked for. -/
theorem mem_askedWords {a : Address} {first : WordRef} {slot : Nat}
    (haddress : operation.address? = some a)
    (hresolved : t.Resolved s.region a operation.length slot first)
    (hwithin : first.Within (operation.length / s.region.wordSize) ref) :
    ref ∈ s.askedWords operation := by
  unfold askedWords
  rw [haddress]
  exact (Region.mem_span_iff hresolved ref).2 hwithin

/-- What an access to a range has claimed, it has accessed. -/
theorem mem_accessedWords {α : Type} (operation : Operation) {a : Address} {first : WordRef}
    {seg : Segment} {slot : Nat} {barred : Control → Prop} {change : Nat → Stored → Stored}
    {result : Option (Except Failure α) × Session} (hs : s.Steady)
    (haddress : operation.address? = some a)
    (hresolved : t.Resolved s.region a operation.length slot first)
    (haccesses : s.Accesses h t a first seg (operation.length / s.region.wordSize) barred change
      result)
    (hanswer : ∀ failure, (s.step operation).1.failure? = some failure ↔
      result.1 = some (.error failure))
    (ho : s.open? h = some t) (ho' : result.2.open? h = some t') (href : ref ∈ t'.touched) :
    ref ∈ t.touched ∨ ref ∈ s.accessedWords operation := by
  rcases haccesses.answered with ⟨value, hvalue⟩ | ⟨failure, hfailure⟩
  · -- All the words are done.
    obtain ⟨r', -, hafter⟩ := haccesses.success value hvalue
    rw [hafter, open?_put_self ho] at ho'
    cases ho'
    have hnone : (s.step operation).1.failure? = none := by
      cases hstep : (s.step operation).1.failure? with
      | none => rfl
      | some failure =>
        have herror := (hanswer failure).1 hstep
        rw [hvalue] at herror
        cases herror
    unfold accessedWords
    rw [hnone]
    exact (Transaction.within_of_mem_touched href).imp_right (mem_askedWords haddress hresolved)
  · obtain ⟨k, hk, -, -, rfl, -, hoffset, -, r', -, hafter⟩ := haccesses.conflict failure hfailure
    rw [hafter, open?_put_self ho] at ho'
    cases ho'
    have hstep := (hanswer _).2 hfailure
    unfold accessedWords
    rw [hstep]
    dsimp only
    rcases Transaction.within_of_mem_touched (t := t) href with hold | ⟨hsegment, hlow, hhigh⟩
    · exact .inl hold
    · -- Only the words before the conflict are done.
      have hwithin : first.Within (operation.length / s.region.wordSize) ref :=
        ⟨hsegment, hlow, Nat.lt_trans hhigh (Nat.add_lt_add_left hk first.word)⟩
      have hbefore := Nat.mul_lt_mul_of_pos_right hhigh hs.sized.positive
      rw [← hoffset] at hbefore
      exact .inr (List.mem_filter.2
        ⟨mem_askedWords haddress hresolved hwithin, decide_eq_true hbefore⟩)

/-- What a transaction has claimed after a read, it had claimed before or has accessed. -/
theorem touched_of_read (hs : s.Steady) (hspanned : s.region.Spanned) (ho : s.open? h = some t)
    {a : Address} {length : Nat} (href : ref ∈ (t.read s.region a length).transaction.touched) :
    ref ∈ t.touched ∨ ref ∈ s.accessedWords (.read h a length) := by
  cases t.read_cases s.region a length with
  | refused doomed heq => rw [heq] at href; exact .inl href
  | failed undoomed why heq => rw [heq] at href; exact .inl href
  | shared undoomed readOnly resolved found heq => rw [heq] at href; exact .inl href
  | passed undoomed readWrite resolved found heq =>
    have haccesses := accesses_read hs hspanned ho undoomed readWrite found resolved
    have ho' : (s.read h a length).2.open? h = some (t.read s.region a length).transaction := by
      rw [read, access_of_open _ ho, open?_put_self ho]
    exact mem_accessedWords (.read h a length) hs rfl resolved haccesses
      (fun failure => Answer.failure?_bytes) ho ho' href

theorem touched_of_write (hs : s.Steady) (hspanned : s.region.Spanned) (ho : s.open? h = some t)
    {a : Address} {bytes : List UInt8}
    (href : ref ∈ (t.write s.region a bytes).transaction.touched) :
    ref ∈ t.touched ∨ ref ∈ s.accessedWords (.write h a bytes) := by
  cases t.write_cases s.region a bytes with
  | refused doomed heq => rw [heq] at href; exact .inl href
  | failed undoomed why heq => rw [heq] at href; exact .inl href
  | passed undoomed readWrite resolved found heq =>
    have haccesses := accesses_write hs hspanned ho undoomed readWrite found resolved
    have ho' : (s.write h a bytes).2.open? h = some (t.write s.region a bytes).transaction := by
      rw [write, access_of_open _ ho, open?_put_self ho]
    exact mem_accessedWords (.write h a bytes) hs rfl resolved haccesses
      (fun failure => Answer.failure?_done) ho ho' href

/-- Whatever an open transaction has claimed it had claimed before the operation,
    or has accessed by it. -/
theorem touched_of_step (hs : s.Steady) (hspanned : s.region.Spanned)
    (ho' : (s.step operation).2.open? h = some t') (href : ref ∈ t'.touched) :
    (∃ t, s.open? h = some t ∧ ref ∈ t.touched) ∨
      (operation.user? = some h ∧ (s.open? h).isSome = true ∧ ref ∈ s.accessedWords operation) := by
  have hopen : ∀ {t}, s.open? h = some t → (s.open? h).isSome = true := by
    intro t ho
    rw [ho]
    rfl
  cases became_of_step ho' with
  | began new unlogged =>
    rw [unlogged.1] at href
    cases href
  | kept isOpen other => exact .inl ⟨t', isOpen, href⟩
  | gaveUp isOpen after =>
    rw [after] at href
    exact .inl ⟨_, isOpen, href⟩
  | @read t a length isOpen after =>
    rw [after] at href
    rcases touched_of_read hs hspanned isOpen href with hold | hnew
    · exact .inl ⟨t, isOpen, hold⟩
    · exact .inr ⟨rfl, hopen isOpen, hnew⟩
  | @write t a bytes isOpen after =>
    rw [after] at href
    rcases touched_of_write hs hspanned isOpen href with hold | hnew
    · exact .inl ⟨t, isOpen, hold⟩
    · exact .inr ⟨rfl, hopen isOpen, hnew⟩
  | @alloc t size memory isOpen after =>
    have hsame : (t.alloc s.region size memory).transaction.touched = t.touched := by
      cases t.alloc_cases s.region size memory with
      | refused doomed heq => rw [heq]; rfl
      | failed undoomed why heq => rw [heq]; rfl
      | scarce undoomed readWrite attempt heq => rw [heq]
      | granted undoomed readWrite whole enough found heq => rw [heq]
    rw [after, hsame] at href
    exact .inl ⟨t, isOpen, href⟩
  | @free t a isOpen after =>
    have hsame : (t.free s.region a).transaction.touched = t.touched := by
      cases t.free_cases s.region a with
      | refused doomed heq => rw [heq]; rfl
      | failed undoomed why heq => rw [heq]; rfl
      | marked undoomed readWrite freeable live heq => rw [heq]
    rw [after, hsame] at href
    exact .inl ⟨t, isOpen, href⟩

/-! ## A run -/

/-- What the operations of transaction `h` report while it is open. -/
def reports {α : Type} (s : Session) (h : Handle) (report : Session → Operation → List α) :
    List Operation → List α
  | [] => []
  | operation :: rest =>
    (if operation.user? = some h ∧ (s.open? h).isSome = true then report s operation else []) ++
      (s.step operation).2.reports h report rest

/-- What is reported in a run is reported by one of its operations. -/
theorem mem_reports_iff {α : Type} {report : Session → Operation → List α} {x : α} :
    x ∈ s.reports h report operations ↔ ∃ before operation after,
      operations = before ++ operation :: after ∧ operation.user? = some h ∧
        ((s.run before).2.open? h).isSome = true ∧ x ∈ report (s.run before).2 operation := by
  induction operations generalizing s with
  | nil =>
    constructor
    · intro hx
      cases hx
    · rintro ⟨before, operation, after, hnil, -⟩
      cases before <;> cases hnil
  | cons operation rest ih =>
    rw [reports, List.mem_append, ih]
    constructor
    · rintro (hfirst | ⟨before, later, after, rfl, hlater⟩)
      · split at hfirst
        next hcond => exact ⟨[], operation, rest, rfl, hcond.1, hcond.2, hfirst⟩
        next => cases hfirst
      · exact ⟨operation :: before, later, after, rfl, hlater⟩
    · rintro ⟨before, later, after, hsplit, huser, hopen, hx⟩
      cases before with
      | nil =>
        cases hsplit
        left
        rw [if_pos ⟨huser, hopen⟩]
        exact hx
      | cons first before =>
        cases hsplit
        exact .inr ⟨before, later, after, rfl, huser, hopen, hx⟩

/-- What is reported in a part of a run is reported in the run. -/
theorem reports_mono {α : Type} {report : Session → Operation → List α} {x : α}
    {before after : List Operation} (hx : x ∈ s.reports h report before) :
    x ∈ s.reports h report (before ++ after) := by
  obtain ⟨first, operation, middle, rfl, hrest⟩ := mem_reports_iff.1 hx
  exact mem_reports_iff.2 ⟨first, operation, middle ++ after, by simp, hrest⟩

/-- Whatever an open transaction has claimed, it has accessed during the run. -/
theorem accessed_of_touched {settings : Settings} (hcreate : create settings = .ok start)
    (ho : (start.run operations).2.open? h = some t) (href : ref ∈ t.touched) :
    ref ∈ start.reports h accessedWords operations := by
  induction operations using List.reverseRecOn generalizing t with
  | nil => cases (open?_of_create hcreate h).symm.trans ho
  | append_singleton operations operation ih =>
    have hsteady := (steady_of_create hcreate).run operations
    have hspanned := spanned_run hcreate operations
    rw [start.run_cut operations operation []] at ho
    rcases touched_of_step hsteady hspanned ho href with ⟨u, hu, hold⟩ | hnew
    · exact reports_mono (ih hu hold)
    · exact mem_reports_iff.2 ⟨operations, operation, [], rfl, hnew⟩

/-- A free that succeeds has freed the segment in its slot. -/
theorem freed_of_report {i : Nat} (hi : i ∈ s.freedBy h operation) :
    operation.user? = some h ∧ ∃ t n, s.open? h = some t ∧
      s.region.table.lookup i = .live n ∧ n ∈ s.freedSegments operation := by
  obtain ⟨a, rfl, hfree, ha⟩ := free_of_mem_freedBy hi
  obtain ⟨t, n, ho, hlive, -⟩ := frees_of_ok ha hfree
  refine ⟨rfl, t, n, ho, hlive, ?_⟩
  have hanswer : (s.step (.free h a)).1.failure? = none := by
    simp only [step, hfree, Answer.failure?]
  unfold freedSegments
  rw [if_pos hanswer]
  exact mem_namedSegments rfl ha (by rw [hlive]; rfl)

/-- Whatever segment an open transaction marks as being freed, it has freed during the run. -/
theorem freed_of_mem {settings : Settings} (hcreate : create settings = .ok start)
    (horderly : start.Orderly operations) (ho : (start.run operations).2.open? h = some t)
    {i n : Nat} (hi : i ∈ t.freed)
    (hn : (start.run operations).2.region.table.lookup i = .freeing n) :
    n ∈ start.reports h freedSegments operations := by
  -- Some operation has reported the slot.
  rw [((lists_run hcreate operations horderly h).isOpen t ho).2] at hi
  rcases mem_logged hi with hnil | ⟨before, operation, after, rfl, hreport⟩
  · cases hnil
  obtain ⟨huser, u, m, hu, hlive, hfreed⟩ := freed_of_report hreport
  obtain ⟨hbefore, hrest⟩ := (start.orderly_append before _).1 horderly
  have hs := (Recorded.run (.created hcreate) before hbefore).sound
  -- From then on, the slot holds this segment or none.
  have heffects : Effects True (start.run before).2 _ _ :=
    effects_record hs.toSteady (operation :: after) fun _ => hrest
  rw [run_append] at ho hn
  have hkeeps := keeps_effects hs heffects hu ho (.inl (by rw [hlive]; rfl))
  rcases hkeeps with hsame | ⟨hvacant, -⟩
  · rw [hn] at hsame
    cases hsame
    exact mem_reports_iff.2 ⟨before, operation, after, rfl, huser, by rw [hu]; rfl, hfreed⟩
  · rw [hn] at hvacant
    cases hvacant

end Session

end TransactionalMemory
