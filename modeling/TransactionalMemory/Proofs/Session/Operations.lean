import TransactionalMemory.Proofs.Session.Preservation
import TransactionalMemory.Proofs.Transaction.Outcomes

/-! # Operations as chains of effects

    Every operation on a steady session does what a chain of effects does, and
    adds to the history what these effects add. If the operation is orderly, so
    are the effects. A failed range access shows why
    the doomed transactions add nothing: it is the same as dooming the
    transaction first and accessing the words afterwards. -/

namespace TransactionalMemory

namespace Transaction

variable {t t' : Transaction} {r r' : Region}

/-- A doomed transaction is granted the same accesses. -/
theorem WordStep.doom {a : Access} (h : t.WordStep r a t' r') : t.doom.WordStep r a t'.doom r' := by
  have hlog : ∀ ref g, (t.log ref g).doom = t.doom.log ref g := fun ref g => by cases g <;> rfl
  cases h with
  | read cell grants becomes => rw [hlog]; exact .read cell grants becomes
  | write cell grants exclusive becomes => rw [hlog]; exact .write cell grants exclusive becomes

theorem WordSteps.doom {accesses : List Access} (h : t.WordSteps r accesses t' r') :
    t.doom.WordSteps r accesses t'.doom r' := by
  induction h with
  | nil => exact .nil
  | cons first _ ih => exact .cons first.doom ih

end Transaction

namespace Session

variable {orderly : Prop} {s : Session} {h : Handle} {t t' : Transaction} {r' : Region}

/-- A chain of granted accesses to words of one segment. -/
theorem effects_wordSteps {r : Region} {accesses : List Access} {i n : Nat}
    (hsteps : t.WordSteps r accesses t' r') (hr : s.region = r) (ho : s.open? h = some t)
    (hrw : t.isReadOnly = false) (hfound : (r.table.lookup i).segment? = some n)
    (hseg : ∀ a ∈ accesses, a.ref.segment = n) :
    Effects orderly s (if t.doomed then [] else (accesses.map (Event.accessed h)).reverse)
      (s.put h (some t') r') := by
  induction hsteps generalizing s with
  | nil =>
    rw [← hr, put_self ho]
    simp only [List.map_nil, List.reverse_nil, ite_self]
    exact .nil
  | @cons t t₁ t₂ r r₁ r₂ a rest first after ih =>
    -- The slot still leads to the segment, so the next access finds it as well.
    subst hr
    obtain ⟨c, c', g, -, hbecomes, -, rfl, -⟩ := first.inv
    have hfirst : Effect orderly s _ _ :=
      .accessed ho hrw (hseg a List.mem_cons_self ▸ hfound) first
    have hrest := ih (s := s.put h (some (t.log a.ref g)) r₁) rfl (open?_put_self ho)
      (by rw [Transaction.isReadOnly, Transaction.mode_log]; exact hrw)
      (by rw [hbecomes.toSameButWords.table_eq]; exact hfound)
      (fun b hb => hseg b (List.mem_cons_of_mem _ hb))
    have hboth := (Effects.single hfirst).trans hrest
    rw [put_put, Transaction.doomed_log] at hboth
    by_cases hd : t.doomed = true
    · simpa [hd] using hboth
    · simpa [hd] using hboth

/-- What an operation of an open transaction answers and leaves behind. -/
theorem access_of_open {α : Type} (operation : Transaction → Region → Outcome α)
    (ho : s.open? h = some t) :
    s.access h operation =
      (some (operation t s.region).value,
        s.put h (some (operation t s.region).transaction) (operation t s.region).region) := by
  unfold access
  rw [ho]
  rfl

/-- A pass over the words of one segment, whatever comes of it. -/
theorem effects_ofPass {α : Type} {a : Address} {first : WordRef} {pass : Transaction.Pass α}
    {accesses : List Access} {i : Nat} (ho : s.open? h = some t) (hrw : t.isReadOnly = false)
    (hundoomed : t.doomed = false)
    (hfound : (s.region.table.lookup i).segment? = some first.segment)
    (hsteps : t.WordSteps s.region accesses pass.transaction
      (s.region.updateSegment first.segment fun _ => pass.segment))
    (hseg : ∀ a ∈ accesses, a.ref.segment = first.segment) :
    Effects orderly s
      (match (Transaction.ofPass s.region a first pass).value with
        | .ok _ => (accesses.map (Event.accessed h)).reverse
        | .error _ => [])
      (s.put h (some (Transaction.ofPass s.region a first pass).transaction)
        (Transaction.ofPass s.region a first pass).region) := by
  cases hvalue : pass.value with
  | ok value =>
    have hchain : Effects orderly s _ _ := effects_wordSteps hsteps rfl ho hrw hfound hseg
    simpa [Transaction.ofPass, hvalue, hundoomed] using hchain
  | error w =>
    -- What was granted before the conflict stays granted, but is not recorded.
    have hdoomed : Effects orderly s _ _ := .single (.doomed ho)
    have hchain : Effects orderly _ _ _ := effects_wordSteps
      (s := s.put h (some t.doom) s.region) hsteps.doom rfl (open?_put_self ho) hrw hfound hseg
    have hboth := hdoomed.trans hchain
    rw [put_put] at hboth
    simpa [Transaction.ofPass, Transaction.fail, hvalue, Transaction.doom] using hboth

/-! ## Range accesses -/

theorem events_read_of_open (ho : s.open? h = some t) (a : Address) (length : Nat) :
    s.events (.read h a length) =
      match (t.read s.region a length).value with
      | .ok bytes => if t.isReadOnly then [] else s.accesses h .read a bytes
      | .error _ => [] := by
  unfold events read
  simp only [ho, access_of_open _ ho]
  cases (t.read s.region a length).value <;> rfl

theorem events_write_of_open (ho : s.open? h = some t) (a : Address) (bytes : List UInt8) :
    s.events (.write h a bytes) =
      match (t.write s.region a bytes).value with
      | .ok () => s.accesses h .write a bytes
      | .error _ => [] := by
  unfold events write
  simp only [access_of_open _ ho]
  cases (t.write s.region a bytes).value <;> rfl

/-- The accesses to the words of a resolved range. -/
theorem accesses_of_resolved {a : Address} {length slot : Nat} {first : WordRef}
    (hresolved : t.Resolved s.region a length slot first)
    (kind : WordRef → List UInt8 → Access) (bytes : List UInt8) :
    s.accesses h kind a bytes =
      (((first.spread s.region.wordSize (bytes.length / s.region.wordSize) bytes).map
        fun (ref, part) => kind ref part).map (Event.accessed h)).reverse := by
  unfold accesses
  rw [hresolved.wordAt?_eq, List.map_map]
  rfl

theorem effects_read (hs : s.Steady) (h : Handle) (a : Address) (length : Nat) :
    Effects orderly s (s.events (.read h a length)) (s.read h a length).2 := by
  cases ho : s.open? h with
  | none =>
    unfold events read access
    simp only [ho]
    exact .nil
  | some t =>
    rw [events_read_of_open ho, read, access_of_open _ ho]
    cases t.read_cases s.region a length with
    | refused doomed heq =>
      rw [heq]
      show Effects orderly s [] (s.put h (some t) s.region)
      rw [put_self ho]
      exact .nil
    | failed undoomed why heq =>
      rw [heq]
      exact .single (.doomed ho)
    | shared undoomed readOnly resolved found heq =>
      -- A read-only transaction leaves no trace.
      rw [heq]
      simp only [readOnly, if_true]
      rw [put_self ho]
      exact .nil
    | @passed slot first seg undoomed readWrite resolved found heq =>
      rw [heq]
      simp only [readWrite, Bool.false_eq_true, if_false]
      obtain ⟨hrange, hwhole⟩ := resolved.range_le hs.shaped found
      obtain ⟨accesses, hsteps, hsegment, hend⟩ := Transaction.readWords_steps (t := t)
        hs.shaped found first.word (length / s.region.wordSize) hrange #[]
      have hchain : Effects orderly s _ _ := effects_ofPass (a := a) (h := h) ho readWrite undoomed
        resolved.holds hsteps hsegment
      cases hvalue : (t.readWords seg first.segment first.word (length / s.region.wordSize)
          #[]).value with
      | error w => simpa [Transaction.ofPass, Transaction.fail, hvalue] using hchain
      | ok bytes =>
        -- The bytes that were read, cut into words, are the reads of the history.
        obtain ⟨part, hpart, hlen, haccesses⟩ := hend bytes hvalue
        have hbytes : bytes = part := by simpa using hpart
        subst hbytes
        have hcount : bytes.length / s.region.wordSize = length / s.region.wordSize := by
          rw [hlen, Nat.mul_div_cancel _ hs.sized.positive]
        have hevents : s.accesses h .read a bytes = (accesses.map (Event.accessed h)).reverse := by
          rw [accesses_of_resolved resolved, hcount, haccesses]
        simpa [Transaction.ofPass, hvalue, hevents] using hchain

theorem effects_write (hs : s.Steady) (h : Handle) (a : Address) (bytes : List UInt8) :
    Effects orderly s (s.events (.write h a bytes)) (s.write h a bytes).2 := by
  cases ho : s.open? h with
  | none =>
    unfold events write access
    simp only [ho]
    exact .nil
  | some t =>
    rw [events_write_of_open ho, write, access_of_open _ ho]
    cases t.write_cases s.region a bytes with
    | refused doomed heq =>
      rw [heq]
      show Effects orderly s [] (s.put h (some t) s.region)
      rw [put_self ho]
      exact .nil
    | failed undoomed why heq =>
      rw [heq]
      exact .single (.doomed ho)
    | @passed slot first seg undoomed readWrite resolved found heq =>
      rw [heq]
      obtain ⟨hrange, hwhole⟩ := resolved.range_le hs.shaped found
      obtain ⟨accesses, hsteps, hsegment, hend⟩ := Transaction.writeWords_steps (t := t)
        hs.shaped found first.word (bytes.length / s.region.wordSize) hrange bytes hwhole.symm
      have hchain : Effects orderly s _ _ := effects_ofPass (a := a) (h := h) ho readWrite undoomed
        resolved.holds hsteps hsegment
      cases hvalue : (t.writeWords seg first.segment s.region.wordSize first.word
          (bytes.length / s.region.wordSize) bytes).value with
      | error w => simpa [Transaction.ofPass, Transaction.fail, hvalue] using hchain
      | ok _ =>
        have hevents : s.accesses h .write a bytes = (accesses.map (Event.accessed h)).reverse := by
          rw [accesses_of_resolved resolved, hend hvalue]
        simpa [Transaction.ofPass, hvalue, hevents] using hchain

/-! ## The other operations -/

/-- A transaction begins, or nothing changes. -/
theorem begin_cases (s : Session) (readOnly : Bool) :
    (s.begin readOnly).2 = s ∨ ∃ t, Begins s (s.begin readOnly).2 t := by
  unfold begin
  split
  · split
    next => exact .inl rfl
    next identified => exact .inr ⟨_, begins_enter identified⟩
  · exact .inl rfl

/-- Only the ids can run out when a transaction begins. -/
theorem begin_refused {readOnly : Bool} {failure : Failure}
    (h : (s.begin readOnly).1 = .refused failure) : failure = .idsExhausted := by
  unfold begin at h
  split at h
  · cases hidentified : s.region.identify? readOnly with
    | ok found => rw [hidentified] at h; cases h
    | error cause =>
      rw [hidentified] at h
      cases h
      exact identify?_refused hidentified
  · cases h

/-- If no transaction is begun, nothing changes. -/
theorem begin_of_not_started {readOnly : Bool}
    (hnot : ∀ h, (s.begin readOnly).1 ≠ .started h) : (s.begin readOnly).2 = s := by
  unfold begin at hnot ⊢
  split
  next hadmits =>
    rw [if_pos hadmits] at hnot
    split
    next => rfl
    next mode region hidentified =>
      rw [hidentified] at hnot
      exact absurd rfl (hnot _)
  next => rfl

/-- A transaction that has begun has the next handle. -/
theorem begins_of_started {readOnly : Bool}
    (hbegins : (s.begin readOnly).1 = .started h) :
    h = s.transactions.size ∧ ∃ t, Begins s (s.begin readOnly).2 t ∧ t.isReadOnly = readOnly := by
  unfold begin at hbegins ⊢
  split at hbegins
  next hgate =>
    rw [if_pos hgate]
    cases hidentified : s.region.identify? readOnly with
    | error cause => rw [hidentified] at hbegins; cases hbegins
    | ok found =>
      obtain ⟨mode, region⟩ := found
      rw [hidentified] at hbegins
      cases hbegins
      exact ⟨rfl, _, begins_enter hidentified, isReadOnly_of_identify? hidentified⟩
  next => cases hbegins

/-- A transaction that has begun is open, and of the kind that was asked for. -/
theorem begin_started {readOnly : Bool} (hbegin : (s.begin readOnly).1 = .started h) :
    ∃ t, (s.begin readOnly).2.open? h = some t ∧ t.isReadOnly = readOnly := by
  obtain ⟨rfl, t, hbegins, hmode⟩ := begins_of_started hbegin
  exact ⟨t, hbegins.self, hmode⟩

theorem segments_begin (s : Session) (readOnly : Bool) :
    (s.begin readOnly).2.region.segments = s.region.segments := by
  rcases s.begin_cases readOnly with hsame | ⟨t, hbegins⟩
  · rw [hsame]
  · exact hbegins.segments_eq

theorem effects_begin (s : Session) (readOnly : Bool) :
    Effects orderly s (s.events (.begin readOnly)) (s.begin readOnly).2 := by
  unfold events begin
  by_cases hgate : s.region.gate.admits readOnly = true
  · simp only [hgate, if_true]
    cases hidentified : s.region.identify? readOnly with
    | error failure => exact .nil
    | ok found => exact .single (.began hidentified)
  · simp only [hgate]
    exact .nil

theorem effects_alloc (s : Session) (h : Handle) (size : Nat) (memory : Bool) :
    Effects orderly s [] (s.alloc h size memory).2 := by
  cases ho : s.open? h with
  | none =>
    unfold alloc access
    simp only [ho]
    exact .nil
  | some t =>
    rw [alloc, access_of_open _ ho]
    cases t.alloc_cases s.region size memory with
    | refused doomed heq =>
      rw [heq]
      show Effects orderly s [] (s.put h (some t) s.region)
      rw [put_self ho]
      exact .nil
    | failed undoomed why heq =>
      rw [heq]
      exact .single (.doomed ho)
    | scarce undoomed readWrite attempt heq =>
      rw [heq]
      dsimp only
      rw [put_unchanged ho]
      exact .single (.missed (Region.fails_of_attempt attempt))
    | granted undoomed readWrite whole enough found heq =>
      rw [heq]
      exact .single (.allocated ho readWrite whole found)

theorem effects_free (s : Session) (h : Handle) (a : Address) :
    Effects orderly s [] (s.free h a).2 := by
  cases ho : s.open? h with
  | none =>
    unfold free access
    simp only [ho]
    exact .nil
  | some t =>
    rw [free, access_of_open _ ho]
    cases t.free_cases s.region a with
    | refused doomed heq =>
      rw [heq]
      show Effects orderly s [] (s.put h (some t) s.region)
      rw [put_self ho]
      exact .nil
    | failed undoomed why heq =>
      rw [heq]
      exact .single (.doomed ho)
    | marked undoomed readWrite freeable live heq =>
      rw [heq]
      exact .single (.freed ho readWrite live (Transaction.ne_permanentSlot_of_freeable freeable))

/-- A transaction that gives up is doomed, if it is open. -/
theorem abort_cases (s : Session) (h : Handle) :
    s.abort h = s ∨ ∃ t, s.open? h = some t ∧ s.abort h = s.put h (some t.doom) s.region := by
  unfold abort
  split
  next => exact .inl rfl
  next t ho => exact .inr ⟨t, ho, rfl⟩

theorem segments_abort (s : Session) (h : Handle) :
    (s.abort h).region.segments = s.region.segments := by
  rcases s.abort_cases h with hsame | ⟨t, -, hput⟩
  · rw [hsame]
  · rw [hput, region_put]

theorem effects_abort (s : Session) (h : Handle) : Effects orderly s [] (s.abort h) := by
  rcases s.abort_cases h with hsame | ⟨t, ho, hput⟩
  · rw [hsame]
    exact .nil
  · rw [hput]
    exact .single (.doomed ho)

theorem finish_of_open (ho : s.open? h = some t) :
    s.finish h = (some (!t.doomed && t.observationsHold s.region),
      { s.put h none (t.conclusion s.region (!t.doomed && t.observationsHold s.region)) with
        region :=
          (t.conclusion s.region (!t.doomed && t.observationsHold s.region)).collect.2 }) := by
  unfold finish
  rw [ho]
  rfl

theorem effects_finish (h : Handle) (hallowed : orderly → s.Allows (.finish h)) :
    Effects orderly s (s.events (.finish h)) (s.finish h).2 := by
  cases ho : s.open? h with
  | none =>
    unfold events finish
    simp only [ho]
    exact .nil
  | some t =>
    have hallowed : orderly → (s.finish h).1 = some false → s.MayGiveUp h := hallowed
    have hevents : s.events (.finish h)
        = [.ended h (!t.doomed && t.observationsHold s.region)] := by
      simp only [events, finish_of_open ho]
    rw [finish_of_open ho] at hallowed
    rw [hevents, finish_of_open ho]
    generalize hcommitted : (!t.doomed && t.observationsHold s.region) = committed at hallowed
    -- First the end itself, then the collection that comes with it.
    have hended : Effect orderly s [.ended h committed]
        (s.put h none (t.conclusion s.region committed)) := by
      refine .ended ho (fun hc => ?_) fun hord hc => hallowed hord (congrArg some hc)
      rw [hc] at hcommitted
      simpa using hcommitted
    exact (Effects.single hended).snoc .collected

theorem effects_abandon (h : Handle) (hallowed : orderly → s.Allows (.abandon h)) :
    Effects orderly s (s.events (.abandon h)) (s.abandon h) := by
  cases ho : s.open? h with
  | none =>
    have hevents : s.events (.abandon h) = [] := by simp [events, ho]
    rw [hevents, abandon, ho]
    exact .nil
  | some t =>
    have hevents : s.events (.abandon h) = [.ended h false] := by simp [events, ho]
    have hended : Effect orderly s [.ended h false] (s.put h none (t.conclusion s.region false)) :=
      .ended ho (absurd · Bool.false_ne_true) fun hord _ => hallowed hord
    rw [hevents, abandon, ho]
    exact .single hended

/-- Every operation on a steady session is a chain of effects. -/
theorem effects_step (hs : s.Steady) (operation : Operation)
    (hallowed : orderly → s.Allows operation) :
    Effects orderly s (s.events operation) (s.step operation).2 := by
  cases operation with
  | begin readOnly => exact effects_begin s readOnly
  | read h a length => exact effects_read hs h a length
  | write h a bytes => exact effects_write hs h a bytes
  | alloc h size memory => exact effects_alloc s h size memory
  | free h a => exact effects_free s h a
  | abort h => exact effects_abort s h
  | finish h => exact effects_finish h hallowed
  | abandon h => exact effects_abandon h hallowed
  | collect => exact .single .collected

/-- A run is a chain of effects, which add what the run records. -/
theorem effects_record (hs : s.Steady) (operations : List Operation)
    (hallowed : orderly → s.Orderly operations) :
    Effects orderly s (s.record [] operations) (s.run operations).2 := by
  induction operations generalizing s with
  | nil => exact .nil
  | cons operation rest ih =>
    have hfirst := effects_step hs operation fun hord => (hallowed hord).1
    have hmore := ih (hs.effects hfirst) fun hord => (hallowed hord).2
    rw [record, List.append_nil, record_eq_append]
    exact hfirst.trans hmore

/-- Whatever is done, a session stays steady. -/
theorem Steady.run (hs : s.Steady) (operations : List Operation) :
    (s.run operations).2.Steady := by
  have heffects : Effects False s _ _ := effects_record hs operations nofun
  exact hs.effects heffects

/-! ## Runs -/

theorem create_inv {settings : Settings} (h : create settings = .ok s) :
    ∃ r, Region.create settings = .ok r ∧ s = { region := r } := by
  unfold create at h
  cases hcreate : Region.create settings with
  | error failure => rw [hcreate] at h; cases h
  | ok r =>
    rw [hcreate] at h
    cases h
    exact ⟨r, rfl, rfl⟩

/-- A creation that succeeds has found memory. -/
theorem memory_of_create {settings : Settings} {memory : Bool}
    (h : create settings memory = .ok s) : memory = true := by
  unfold create at h
  cases hcreate : Region.create settings memory with
  | error failure => rw [hcreate] at h; cases h
  | ok r => exact Region.memory_of_create hcreate

/-- A newly created session has a new region, and nobody has begun. -/
theorem new_of_create {settings : Settings} (h : create settings = .ok s) :
    s.region.New ∧ s.transactions = #[] := by
  obtain ⟨r, hcreate, rfl⟩ := create_inv h
  exact ⟨Region.new_of_create hcreate, rfl⟩

/-- In a newly created session nobody is open. -/
theorem open?_of_create {settings : Settings} (h : create settings = .ok s) (k : Handle) :
    s.open? k = none := by
  simp [open?, (new_of_create h).2]

/-- In a newly created session there is the permanent segment and no other. -/
theorem lookup_of_create {settings : Settings} (h : create settings = .ok s) (i : Nat) :
    s.region.table.lookup i = if i = Region.permanentSlot then .live 0 else .vacant := by
  obtain ⟨r, hcreate, rfl⟩ := create_inv h
  exact Region.lookup_of_create hcreate i

/-- A newly created session is steady. -/
theorem steady_of_create {settings : Settings} (h : create settings = .ok s) : s.Steady := by
  obtain ⟨hnew, -⟩ := new_of_create h
  have hnobody : ∀ {k t}, s.open? k ≠ some t := by
    intro k t ho
    rw [open?_of_create h] at ho
    cases ho
  constructor
  · exact hnew.sized
  · exact hnew.shaped
  · exact hnew.backed
  · rw [hnew.ids_eq]
    decide
  · exact fun k t id ho => absurd ho hnobody
  · exact fun k j t u id ho => absurd ho hnobody
  · exact fun k t ho => absurd ho hnobody
  · -- The words are fresh: no accessor, and nothing pending.
    intro ref c id hc hid
    rw [hnew.cells ref c hc] at hid
    cases hid
  · intro ref c hc hpending
    rw [hnew.cells ref c hc] at hpending
    exact absurd rfl hpending

/-- A newly created session is sound. -/
theorem sound_of_create {settings : Settings} (h : create settings = .ok s) : s.Sound := by
  obtain ⟨hnew, hnone⟩ := new_of_create h
  have hnobody : ∀ {k t}, s.open? k ≠ some t := by
    intro k t ho
    rw [open?_of_create h] at ho
    cases ho
  refine ⟨steady_of_create h, hnew.slotted, ?_, ?_, fun k t ho => absurd ho hnobody,
    fun k j t u i ho => absurd ho hnobody, fun k j t u i ho => absurd ho hnobody⟩
  · rw [hnew.collector_eq]
    exact Collector.inOrder_new
  · have hcount : s.pinnedIn = fun _ => 0 := by
      funext e
      simp [pinnedIn, hnone]
    rw [hnew.collector_eq, hcount]
    exact EpochClock.tallies_new

end Session

/-- Every session that an orderly run reaches is sound. -/
theorem Recorded.sound {hist : History} {s : Session} (h : Recorded hist s) : s.Sound := by
  induction h with
  | created created => exact Session.sound_of_create created
  | step before operation allowed ih =>
    exact ih.effects (Session.effects_step ih.toSteady operation fun _ => allowed)

/-- What holds of every new session, and is kept by every orderly effect on a
    sound session, holds of every session that an orderly run reaches. -/
theorem Recorded.invariant {P : Session → Prop} {hist : History} {s : Session}
    (h : Recorded hist s)
    (start : ∀ {settings s}, Session.create settings = .ok s → P s)
    (effect : ∀ {s events s'}, s.Sound → P s → Effect True s events s' → P s') : P s := by
  induction h with
  | created created => exact start created
  | @step hist s before operation allowed ih =>
    have hchain : Effects True s _ _ :=
      Session.effects_step before.sound.toSteady operation fun _ => allowed
    exact (hchain.keep (P := fun s => s.Sound ∧ P s)
      (fun e hboth => ⟨hboth.1.effect e, effect hboth.1 hboth.2 e⟩) ⟨before.sound, ih⟩).2

end TransactionalMemory
