import TransactionalMemory.Proofs.Session.Operations

/-! # Words are a store with private writes

    Two copies, a flip of which one is valid, claims and logs together behave as
    a much simpler thing: a store of words that only commits change, and for
    each transaction the writes that it has not committed. The history of a run
    says what is in both.

    `Represents` is the relation between a history and a session. Every effect
    keeps it; what operations return and change follows from it. -/

namespace TransactionalMemory

namespace Session

variable {orderly : Prop} {s s' : Session} {h k : Handle} {t t' u : Transaction} {r' : Region}
  {hist : History}

/-- The words of a session hold what the history says. -/
structure Represents (hist : History) (s : Session) : Prop where
  values : ∀ ref c, s.region.cell? ref = some c → c.value = hist.value s.region.wordSize ref
  counts : ∀ ref c, s.region.cell? ref = some c → c.seq = hist.commits ref % commitCounts
  /-- What a transaction that may still commit has written is pending for it. -/
  writes : ∀ h t ref c, s.open? h = some t → t.doomed = false → s.region.cell? ref = some c →
    hist.lastWrite h ref = c.pendingOf t.id
  /-- Whoever accessed a word had begun, and the segment had been allocated. -/
  known : ∀ h a, .accessed h a ∈ hist →
    h < s.transactions.size ∧ a.ref.segment < s.region.segments.size

namespace Represents

/-- A transaction that has not begun has written nothing. -/
theorem lastWrite_of_size_le (hrep : Represents hist s) (hh : s.transactions.size ≤ h)
    (ref : WordRef) : hist.lastWrite h ref = none :=
  History.lastWrite_eq_none fun a ha =>
    absurd (hrep.known h a ha).1 (Nat.not_lt_of_le hh)

/-- Nobody has accessed a word of a segment that has not been allocated. -/
theorem ref_ne_of_size_le (hrep : Represents hist s) {ref : WordRef}
    (hn : s.region.segments.size ≤ ref.segment) {h : Handle} {a : Access}
    (ha : .accessed h a ∈ hist) : a.ref ≠ ref := by
  rintro rfl
  exact absurd (hrep.known h a ha).2 (Nat.not_lt_of_le hn)

/-! ## Effects keep the relation -/

/-- An effect that changes no word that there was and ends no transaction. It
    may add fresh words, and a transaction that is the accessor of none. -/
theorem quiet (hrep : Represents hist s) (hsize : s.transactions.size ≤ s'.transactions.size)
    (hsegments : s.region.segments.size ≤ s'.region.segments.size)
    (hwordSize : s'.region.wordSize = s.region.wordSize)
    (hcells : ∀ ref c, s'.region.cell? ref = some c → s.region.cell? ref = some c ∨
      (s.region.segments.size ≤ ref.segment ∧ c = .fresh s.region.wordSize))
    (hopen : ∀ k u, s'.open? k = some u → u.doomed = false →
      (∃ u₀, s.open? k = some u₀ ∧ u₀.doomed = false ∧ u.id = u₀.id) ∨
        (s.transactions.size ≤ k ∧
          ∀ ref c, s'.region.cell? ref = some c → c.accessor ≠ some u.id)) :
    Represents hist s' := by
  constructor
  · -- Nobody has written a fresh word, and it holds zeros.
    intro ref c hc
    rw [hwordSize]
    rcases hcells ref c hc with hold | ⟨hnew, rfl⟩
    · exact hrep.values ref c hold
    · have hnone := (History.lastCommit_eq_none fun _ _ => hrep.ref_ne_of_size_le hnew).1
      rw [History.value, hnone]
      rfl
  · intro ref c hc
    rcases hcells ref c hc with hold | ⟨hnew, rfl⟩
    · exact hrep.counts ref c hold
    · have hnone := (History.lastCommit_eq_none fun _ _ => hrep.ref_ne_of_size_le hnew).2
      rw [hnone]
      rfl
  · -- Nor has somebody who has not begun written anything.
    intro k u ref c hu hundoomed hc
    rcases hopen k u hu hundoomed with ⟨u₀, hu₀, hd₀, hid⟩ | ⟨hk, haccessor⟩
    · rcases hcells ref c hc with hold | ⟨hnew, rfl⟩
      · rw [hid]
        exact hrep.writes k u₀ ref c hu₀ hd₀ hold
      · rw [History.lastWrite_eq_none fun _ => hrep.ref_ne_of_size_le hnew]
        rfl
    · rw [hrep.lastWrite_of_size_le hk, Cell.pendingOf, if_neg (haccessor ref c hc)]
  · intro k a ha
    obtain ⟨hk, hn⟩ := hrep.known k a ha
    exact ⟨Nat.lt_of_lt_of_le hk hsize, Nat.lt_of_lt_of_le hn hsegments⟩

/-- The transaction is put back as it was, for all that matters to words. -/
theorem quiet_put (hrep : Represents hist s) (ho : s.open? h = some t) (hid : t'.id = t.id)
    (hdoomed : t'.doomed = false → t.doomed = false)
    (hsegments : s.region.segments.size ≤ r'.segments.size)
    (hwordSize : r'.wordSize = s.region.wordSize)
    (hcells : ∀ ref c, r'.cell? ref = some c → s.region.cell? ref = some c ∨
      (s.region.segments.size ≤ ref.segment ∧ c = .fresh s.region.wordSize)) :
    Represents hist (s.put h (some t') r') := by
  refine hrep.quiet (Nat.le_of_eq (size_put ..).symm) hsegments hwordSize hcells ?_
  intro k u hu hundoomed
  by_cases hk : k = h
  · subst hk
    rw [open?_put_self ho] at hu
    cases hu
    exact .inl ⟨t, ho, hdoomed hundoomed, hid⟩
  · rw [open?_put_ne hk] at hu
    exact .inl ⟨u, hu, hundoomed, rfl⟩

/-- The beginning of a transaction. -/
theorem began (hs : s.Steady) (hrep : Represents hist s) (hb : Begins s s' t) :
    Represents (.began s.transactions.size :: hist) s' := by
  have hcells := Region.cell?_congr hb.segments_eq
  have hwordSize := Region.wordSize_congr hb.settings_eq
  have hquiet : Represents hist s' := by
    refine hrep.quiet (by rw [hb.size]; exact Nat.le_succ _)
      (Nat.le_of_eq (congrArg Array.size hb.segments_eq).symm) hwordSize
      (fun ref c hc => .inl ((hcells ref).symm.trans hc)) fun k u hu hundoomed => ?_
    rcases hb.before hu with hold | ⟨hk, rfl⟩
    · exact .inl ⟨u, hold, hundoomed, rfl⟩
    · -- The new transaction has no word in its log, so it is no accessor.
      refine .inr ⟨Nat.le_of_eq hk.symm, fun ref c hc => ?_⟩
      refine (hs.began hb).accessor_ne hu hc ?_
      rw [hb.unlogged.1]
      exact List.not_mem_nil
  refine ⟨hquiet.values, hquiet.counts, hquiet.writes, fun k a ha => ?_⟩
  exact hquiet.known k a ((List.mem_cons.1 ha).resolve_left nofun)

/-- After a granted access of a transaction that may still commit, what the
    history says that it wrote last is what is pending for it. -/
theorem lastWrite_accessed (hrep : Represents hist s) (ho : s.open? h = some t)
    (hundoomed : t.doomed = false) {a : Access} (hstep : t.WordStep s.region a t' r')
    {ref : WordRef} {c c' : Cell} (hc : s.region.cell? ref = some c)
    (hc' : r'.cell? ref = some c') :
    History.lastWrite h ref (.accessed h a :: hist) = c'.pendingOf t.id := by
  have hwrites := hrep.writes h t ref c ho hundoomed hc
  by_cases heq : a.ref = ref
  · subst heq
    rw [hstep.pendingOf_self hc hc', ← hwrites]
    match a with
    | .read _ _ => rfl
    | .write _ _ => exact if_pos ⟨rfl, rfl⟩
  · obtain ⟨_, _, _, -, hbecomes, -⟩ := hstep.inv
    rw [hbecomes.others ref (Ne.symm heq), hc] at hc'
    cases hc'
    rw [← hwrites]
    exact History.lastWrite_accessed_ne (.inr heq)

/-- A granted access. A read changes no contents, and a write only those that
    are pending for the transaction in its one word. -/
theorem accessed (hrep : Represents hist s) (ho : s.open? h = some t)
    (hsep : ∀ k u, s.open? k = some u → k ≠ h → u.id ≠ t.id) {a : Access}
    (hstep : t.WordStep s.region a t' r') :
    Represents ((if t.doomed then [] else [.accessed h a]) ++ hist) (s.put h (some t') r') := by
  obtain ⟨c, c', g, hc, hbecomes, -, rfl, -⟩ := hstep.inv
  have hsame := hbecomes.toSameButWords
  constructor
  · -- Committed values stay.
    intro ref c₁ hc₁
    obtain ⟨c₀, hc₀, hv, -, -⟩ := hstep.cell_before hc₁
    rw [hv, hrep.values ref c₀ hc₀]
    show _ = History.value r'.wordSize ref _
    rw [hsame.wordSize_eq]
    split <;> rfl
  · -- So do commit counts.
    intro ref c₁ hc₁
    obtain ⟨c₀, hc₀, -, hn, -⟩ := hstep.cell_before hc₁
    rw [hn, hrep.counts ref c₀ hc₀]
    split <;> rfl
  · intro k u ref c₁ hu hundoomed hc₁
    obtain ⟨c₀, hc₀, -, -, hp⟩ := hstep.cell_before hc₁
    by_cases hk : k = h
    · -- The transaction itself: what it has pending is what it wrote last.
      subst hk
      rw [open?_put_self ho] at hu
      cases hu
      rw [Transaction.doomed_log] at hundoomed
      rw [Transaction.id_log, hundoomed]
      exact hrep.lastWrite_accessed ho hundoomed hstep hc₀ hc₁
    · -- Another one: its writes are not concerned.
      rw [open?_put_ne hk] at hu
      rw [hp u.id (hsep k u hu hk), ← hrep.writes k u ref c₀ hu hundoomed hc₀]
      split
      · rfl
      · exact History.lastWrite_accessed_ne (.inl (Ne.symm hk))
  · intro k b hb
    have hlt : k < s.transactions.size ∧ b.ref.segment < s.region.segments.size := by
      rcases List.mem_append.1 hb with hnew | hmem
      · split at hnew
        · cases hnew
        · cases List.mem_singleton.1 hnew
          exact ⟨lt_size_of_open ho, Region.lt_size_of_cell? hc⟩
      · exact hrep.known k b hmem
    rw [size_put, region_put, hsame.size]
    exact hlt

/-- The end of a transaction. A commit turns the writes of the transaction into
    values, and everybody else's writes stay pending. -/
theorem ended (hs : s.Steady) (hrep : Represents hist s) (ho : s.open? h = some t)
    {committed : Bool} (hvalid : committed = true → t.doomed = false) :
    Represents (.ended h committed :: hist) (s.put h none (t.conclusion s.region committed)) := by
  have hend := t.settles_conclusion s.region committed
  have hcells := hs.cells_settles ho hend
  generalize t.conclusion s.region committed = r' at hend hcells
  have hwordSize := Region.wordSize_congr hend.settings_eq
  have hold : ∀ ref c, r'.cell? ref = some c →
      ∃ c₀, s.region.cell? ref = some c₀ ∧ c₀.settled t.id committed = c := by
    intro ref c hc
    rw [hcells ref] at hc
    exact Option.map_eq_some_iff.1 hc
  constructor
  · -- What was pending for the transaction is committed, the rest stays.
    intro ref c hc
    obtain ⟨c₀, hc₀, rfl⟩ := hold ref c hc
    show _ = History.value r'.wordSize ref _
    rw [hwordSize, History.value_ended, Cell.value_settled, hrep.values ref c₀ hc₀]
    cases committed with
    | false => rfl
    | true => rw [hrep.writes h t ref c₀ ho (hvalid rfl) hc₀]
  · -- Each word that it wrote counts one commit more.
    intro ref c hc
    obtain ⟨c₀, hc₀, rfl⟩ := hold ref c hc
    rw [Cell.seq_settled, hrep.counts ref c₀ hc₀]
    cases committed with
    | false => rfl
    | true =>
      rw [Bool.true_and, ← hrep.writes h t ref c₀ ho (hvalid rfl) hc₀, History.commits]
      split
      · rw [Nat.mod_add_mod]
      · rfl
  · -- Cells of others are not settled.
    intro k u ref c hu hundoomed hc
    obtain ⟨c₀, hc₀, rfl⟩ := hold ref c hc
    obtain ⟨hu, hk⟩ := open?_of_put_none ho hu
    refine (hrep.writes k u ref c₀ hu hundoomed hc₀).trans ?_
    by_cases hro : t.isReadOnly = true
    · rw [Cell.settled_of_accessor_ne (hs.accessor_ne_readOnly hro hc₀)]
    · exact (Cell.pendingOf_settled_ne
        (hs.id_ne ho hu hk (Bool.eq_false_iff.2 hro)) committed).symm
  · intro k a ha
    rw [size_put, region_put, hend.size]
    rcases List.mem_cons.1 ha with heq | hmem
    · cases heq
    · exact hrep.known k a hmem

/-- Every effect keeps the relation. -/
theorem effect {events : History} (hs : s.Steady) (hrep : Represents hist s)
    (e : Effect orderly s events s') : Represents (events ++ hist) s' := by
  cases e with
  | began identified => exact hrep.began hs (begins_enter identified)
  | accessed isOpen readWrite found step =>
    exact hrep.accessed isOpen (fun k u hu hk => hs.id_ne isOpen hu hk readWrite) step
  | doomed isOpen =>
    exact hrep.quiet_put isOpen rfl nofun (Nat.le_refl _) rfl fun _ _ hc => .inl hc
  | @allocated h t r' size i isOpen readWrite whole granted =>
    have hgrows := Region.grows_of_allocate? granted
    refine hrep.quiet_put isOpen rfl id hgrows.size_le hgrows.wordSize_eq fun ref c hc => ?_
    rcases hgrows.cell?_eq hs.sized whole ref with heq | ⟨hnew, _, hfresh⟩
    · exact .inl (heq.symm.trans hc)
    · rw [hfresh] at hc
      exact .inr ⟨Nat.le_of_eq hnew.symm, (Option.some.inj hc).symm⟩
  | missed fails =>
    obtain ⟨table, -, rfl⟩ := fails.inv
    exact hrep.quiet (Nat.le_refl _) (Nat.le_refl _) rfl (fun _ _ hc => .inl hc)
      fun k u hu hundoomed => .inl ⟨u, hu, hundoomed, rfl⟩
  | freed isOpen readWrite live removable =>
    exact hrep.quiet_put isOpen rfl id (Nat.le_refl _) rfl fun _ _ hc => .inl hc
  | ended isOpen valid gives =>
    exact hrep.ended hs isOpen fun hc => (valid hc).1
  | collected =>
    have hdrops := s.region.drops_collect
    exact hrep.quiet (Nat.le_refl _) (Nat.le_of_eq hdrops.size.symm) hdrops.wordSize_eq
      (fun ref c hc => .inl (hdrops.cell?_of_some hc)) fun k u hu hundoomed =>
        .inl ⟨u, hu, hundoomed, rfl⟩

/-- So does every chain of effects. -/
theorem effects {events : History} (hs : s.Steady) (hrep : Represents hist s)
    (e : Effects orderly s events s') : Represents (events ++ hist) s' :=
  (Effects.induct (P := fun hist s => s.Steady ∧ Represents hist s)
    (fun e hboth => ⟨hboth.1.effect e, hboth.2.effect hboth.1 e⟩) e ⟨hs, hrep⟩).2

/-- In a newly created session every word is zero and nobody has done anything. -/
theorem of_create {settings : Settings} (h : create settings = .ok s) : Represents [] s := by
  obtain ⟨hnew, -⟩ := new_of_create h
  constructor
  · intro ref c hc
    rw [hnew.cells ref c hc]
    rfl
  · intro ref c hc
    rw [hnew.cells ref c hc]
    rfl
  · intro k u ref c hu
    rw [open?_of_create h] at hu
    cases hu
  · exact fun k a ha => absurd ha List.not_mem_nil

end Represents

/-! ## What operations return and change -/

/-- Every committed value is the one of the history. -/
theorem Represents.committed?_eq (hrep : Represents hist s) {ref : WordRef} {bytes : List UInt8}
    (h : s.region.committed? ref = some bytes) :
    bytes = hist.value s.region.wordSize ref := by
  rw [Region.committed?_eq] at h
  obtain ⟨c, hc, rfl⟩ := Option.map_eq_some_iff.1 h
  exact hrep.values ref c hc

/-- What a read returns. -/
structure Reads (hist : History) (s : Session) (h : Handle) (t : Transaction) (a : Address)
    (length : Nat) (bytes : List UInt8) (first : WordRef) (seg : Segment) : Prop where
  at_eq : s.region.wordAt? a = some first
  found : s.region.segment? first.segment = some seg
  inside : first.word + length / s.region.wordSize ≤ seg.words
  whole : length / s.region.wordSize * s.region.wordSize = length
  /-- A read-only transaction reads what is committed, any other one its own
      latest write where there is one, and what is committed elsewhere. -/
  bytes_eq : bytes = (List.range' first.word (length / s.region.wordSize)).flatMap fun w =>
    if t.isReadOnly then seg.committedBytes w
    else (hist.lastWrite h ⟨first.segment, w⟩).getD (seg.committedBytes w)

theorem reads_of_ok (hs : s.Steady) (hrep : Represents hist s) (ho : s.open? h = some t)
    {a : Address} {length : Nat} {bytes : List UInt8}
    (hread : (s.read h a length).1 = some (.ok bytes)) :
    ∃ first seg, Reads hist s h t a length bytes first seg := by
  rw [read, access_of_open _ ho] at hread
  have hvalue := Option.some.inj hread
  cases t.read_cases s.region a length with
  | refused doomed heq => rw [heq] at hvalue; cases hvalue
  | failed undoomed why heq => rw [heq] at hvalue; cases hvalue
  | @shared slot first seg undoomed readOnly resolved found heq =>
    rw [heq] at hvalue
    obtain ⟨hrange, hwhole⟩ := resolved.range_le hs.shaped found
    refine ⟨first, seg, resolved.wordAt?_eq, found, hrange, hwhole, ?_⟩
    simp only [readOnly, if_true]
    exact (Except.ok.inj hvalue).symm
  | @passed slot first seg undoomed readWrite resolved found heq =>
    rw [heq] at hvalue
    obtain ⟨hrange, hwhole⟩ := resolved.range_le hs.shaped found
    have hpass : (t.readWords seg first.segment first.word (length / s.region.wordSize) #[]).value
        = .ok bytes := by
      cases hv : (t.readWords seg first.segment first.word (length / s.region.wordSize)
          #[]).value with
      | ok value => simpa [Transaction.ofPass, hv] using hvalue
      | error w => simp [Transaction.ofPass, Transaction.fail, hv] at hvalue
    have hbytes := Transaction.readWords_value first.word _ hrange #[] hpass
    refine ⟨first, seg, resolved.wordAt?_eq, found, hrange, hwhole, hbytes.trans ?_⟩
    rw [List.nil_append, List.flatMap_def, List.flatMap_def]
    refine congrArg List.flatten (List.map_congr_left fun w hw => ?_)
    have hcell : s.region.cell? ⟨first.segment, w⟩ = some (seg.cell w) :=
      Region.cell?_eq_some_iff.2
        ⟨seg, found, Nat.lt_of_lt_of_le (List.mem_range'_1.1 hw).2 hrange, rfl⟩
    rw [hrep.writes h t _ _ ho undoomed hcell, readWrite]
    rfl

/-- What an allocation that succeeds comes to. -/
theorem allocates_of_ok {size : Nat} {memory : Bool} {a : Address}
    (halloc : (s.alloc h size memory).1 = some (.ok a)) :
    ∃ t i r', s.open? h = some t ∧ s.region.wordSize ∣ size ∧ a = .ofParts i 0 ∧
      s.region.allocate? size = some (i, r') ∧
      (s.alloc h size memory).2 = s.put h (some { t with allocated := i :: t.allocated }) r' := by
  cases ho : s.open? h with
  | none =>
    rw [alloc, access, ho] at halloc
    cases halloc
  | some t =>
    rw [alloc, access_of_open _ ho] at halloc ⊢
    cases t.alloc_cases s.region size memory with
    | refused doomed heq => rw [heq] at halloc; cases halloc
    | failed undoomed why heq => rw [heq] at halloc; cases halloc
    | scarce undoomed readWrite attempt heq => rw [heq] at halloc; cases halloc
    | granted undoomed readWrite whole enough found heq =>
      rw [heq] at halloc ⊢
      cases halloc
      exact ⟨t, _, _, rfl, whole, rfl, found, rfl⟩

/-- What was just allocated reads as zeros, for everybody and at every range,
    also if the slot was in use before. -/
theorem read_of_allocated (hs : s.Sound) (hrep : Represents hist s) {size : Nat} {memory : Bool}
    {a b : Address} (halloc : (s.alloc h size memory).1 = some (.ok a)) (hb : b.slot? = a.slot?)
    {length : Nat} {bytes : List UInt8}
    (hread : ((s.alloc h size memory).2.read k b length).1 = some (.ok bytes)) :
    bytes = List.replicate length 0 := by
  have heffects : Effects True s _ _ := effects_alloc s h size memory
  obtain ⟨t, i, r', ho, hwhole, rfl, hgranted, hafter⟩ := allocates_of_ok halloc
  have hall := Region.allocate?_spec hs.slotted hgranted
  have hs' := hs.effects heffects
  have hrep' := hrep.effects hs.toSteady heffects
  have hregion : (s.alloc h size memory).2.region = r' := by rw [hafter]; rfl
  cases hu : (s.alloc h size memory).2.open? k with
  | none =>
    rw [read, access, hu] at hread
    cases hread
  | some u =>
    obtain ⟨first, seg, hreads⟩ := reads_of_ok hs'.toSteady hrep' hu hread
    obtain ⟨hat, hfound, hinside, hlength, hbytes⟩ := hreads
    rw [hregion] at hat hfound hinside hlength hbytes
    -- The address leads to the new segment, whose number was never used.
    have hnew : first.segment = s.region.segments.size := by
      unfold Region.wordAt? at hat
      rw [hb, hall.slot?_eq] at hat
      simp only [hall.self, Slot.segment?, Option.some.injEq] at hat
      rw [← hat]
    have hcells := hall.cell?_eq hs.sized hwhole
    have hwords : ∀ w ∈ List.range' first.word (length / r'.wordSize),
        (if u.isReadOnly then seg.committedBytes w
          else (History.lastWrite k ⟨first.segment, w⟩ ([] ++ hist)).getD (seg.committedBytes w))
            = List.replicate r'.wordSize 0 := by
      intro w hw
      have hcell : r'.cell? ⟨first.segment, w⟩ = some (seg.cell w) :=
        Region.cell?_eq_some_iff.2
          ⟨seg, hfound, Nat.lt_of_lt_of_le (List.mem_range'_1.1 hw).2 hinside, rfl⟩
      have hfresh : seg.cell w = .fresh r'.wordSize := by
        rcases hcells ⟨first.segment, w⟩ with hold | ⟨_, _, hfresh⟩
        · rw [hcell] at hold
          have hlt := Region.lt_size_of_cell? hold.symm
          rw [hnew] at hlt
          exact absurd hlt (Nat.lt_irrefl _)
        · rw [hcell, ← hall.wordSize_eq] at hfresh
          exact Option.some.inj hfresh
      have hzeros : seg.committedBytes w = List.replicate r'.wordSize 0 :=
        congrArg Cell.value hfresh
      have hunused : s.region.segments.size ≤ (⟨first.segment, w⟩ : WordRef).segment :=
        Nat.le_of_eq hnew.symm
      have hnone : History.lastWrite k ⟨first.segment, w⟩ hist = none :=
        History.lastWrite_eq_none fun _ => hrep.ref_ne_of_size_le hunused
      rw [List.nil_append, hnone, hzeros]
      exact ite_self _
    rw [hbytes, List.flatMap_def, List.map_congr_left hwords, List.map_const', List.length_range',
      List.flatten_replicate_replicate, hlength]

/-- A commit makes what the transaction last wrote the committed value of each
    word that it wrote, and changes no other word. -/
theorem committed?_finish (hs : s.Steady) (hrep : Represents hist s)
    (hcommit : (s.finish h).1 = some true) {ref : WordRef} {new : List UInt8}
    (hnew : (s.finish h).2.region.committed? ref = some new) :
    ∃ old, s.region.committed? ref = some old ∧ new = (hist.lastWrite h ref).getD old := by
  have heffects : Effects False s _ _ := effects_finish h nofun
  have hevents : s.events (.finish h) = [.ended h true] := by simp only [events, hcommit]
  have hvalue := (hrep.effects hs heffects).committed?_eq hnew
  rw [wordSize_effects heffects, hevents] at hvalue
  obtain ⟨old, hold⟩ : ∃ old, s.region.committed? ref = some old := by
    cases ho : s.open? h with
    | none =>
      rw [finish, ho] at hcommit
      cases hcommit
    | some t =>
      rw [finish_of_open ho] at hcommit hnew
      rw [Option.some.inj hcommit] at hnew
      have hcells := hs.cells_settles ho (t.settles_conclusion s.region true) ref
      rw [Region.committed?_eq] at hnew
      obtain ⟨c, hc, -⟩ := Option.map_eq_some_iff.1 hnew
      -- What the collection leaves was there before, and before the end.
      have hc' := (t.conclusion s.region true).drops_collect.cell?_of_some hc
      rw [hcells] at hc'
      obtain ⟨c₀, hc₀, -⟩ := Option.map_eq_some_iff.1 hc'
      exact ⟨c₀.value, by rw [Region.committed?_eq, hc₀]; rfl⟩
  refine ⟨old, hold, hvalue.trans ?_⟩
  rw [hrep.committed?_eq hold]
  exact History.value_ended ..

/-- No other operation changes a committed value. -/
theorem committed?_step (hs : s.Steady) (hrep : Represents hist s) {operation : Operation}
    (hquiet : ∀ h, operation = .finish h → (s.finish h).1 ≠ some true) {ref : WordRef}
    {old new : List UInt8} (hold : s.region.committed? ref = some old)
    (hnew : (s.step operation).2.region.committed? ref = some new) : new = old := by
  have heffects : Effects False s _ _ := effects_step hs operation nofun
  rw [(hrep.effects hs heffects).committed?_eq hnew, hrep.committed?_eq hold,
    wordSize_effects heffects]
  exact History.value_append _ _ _ (s.not_commit_of_mem_events hquiet)

end Session

/-- The history of an orderly run says what its words hold. -/
theorem Recorded.represents {hist : History} {s : Session} (h : Recorded hist s) :
    Session.Represents hist s := by
  induction h with
  | created created => exact .of_create created
  | step before operation allowed ih =>
    have hs := before.sound.toSteady
    have heffects : Effects False _ _ _ := Session.effects_step hs operation nofun
    exact ih.effects hs heffects

namespace Session

/-- A session behaves as a store of words, with private writes for each
    transaction. -/
structure Refines (hist : History) (s : Session) : Prop where
  /-- Every segment in the table is there. -/
  found : ∀ i n, (s.region.table.lookup i).segment? = some n →
    ∃ seg, s.region.segment? n = some seg ∧ seg.slot = i
  /-- A word holds what was last written to it by the transaction that ended
      last, with a commit, among those that wrote it, and zeros if there is none. -/
  committed : ∀ n seg w, s.region.segment? n = some seg → w < seg.words →
    seg.committedBytes w = (hist.lastCommit ⟨n, w⟩).getD (List.replicate s.region.wordSize 0)
  /-- A transaction reads its own latest writes, and elsewhere what is committed. -/
  read : ∀ h t a length bytes, s.open? h = some t → (s.read h a length).1 = some (.ok bytes) →
    ∃ first seg, Reads hist s h t a length bytes first seg
  /-- A new segment reads as zeros, whichever slot it got. -/
  allocated : ∀ h size memory a, (s.alloc h size memory).1 = some (.ok a) →
    ∀ k b length bytes, b.slot? = a.slot? →
      ((s.alloc h size memory).2.read k b length).1 = some (.ok bytes) →
        bytes = List.replicate length 0
  /-- A commit changes the words that its transaction wrote, all in this one
      operation, and no other word. -/
  commit : ∀ h, (s.finish h).1 = some true →
    ∀ ref new, (s.finish h).2.region.committed? ref = some new →
      ∃ old, s.region.committed? ref = some old ∧ new = (hist.lastWrite h ref).getD old
  /-- Everything else changes no word. -/
  quiet : ∀ operation, (∀ h, operation = .finish h → (s.finish h).1 ≠ some true) →
    ∀ ref old new, s.region.committed? ref = some old →
      (s.step operation).2.region.committed? ref = some new → new = old

/-- After every orderly run, the session behaves as the store that the history
    of the run describes. -/
theorem run_refines {settings : Settings} {start : Session}
    (hcreate : create settings = .ok start) (operations : List Operation)
    (horderly : start.Orderly operations) :
    Refines (start.record [] operations) (start.run operations).2 := by
  have hrec := (Recorded.created hcreate).run operations horderly
  have hs := hrec.sound
  have hrep := hrec.represents
  constructor
  · intro i n hn
    exact (Region.Keeps.unreleased (e := 0) (.inl hn) hs.slotted).1
  · intro n seg w hseg hw
    have hcell : (start.run operations).2.region.cell? ⟨n, w⟩ = some (seg.cell w) :=
      Region.cell?_eq_some_iff.2 ⟨seg, hseg, hw, rfl⟩
    exact hrep.values _ _ hcell
  · intro h t a length bytes ho hread
    exact reads_of_ok hs.toSteady hrep ho hread
  · intro h size memory a halloc k b length bytes hb hread
    exact read_of_allocated hs hrep halloc hb hread
  · intro h hcommit ref new hnew
    exact committed?_finish hs.toSteady hrep hcommit hnew
  · intro operation hquiet ref old new hold hnew
    exact committed?_step hs.toSteady hrep hquiet hold hnew

/-- One transaction commits a word while another one has written to the next. -/
theorem run_refines_two_writers :
    ∃ start, create { size := 16, align := 8 } = .ok start ∧
      Refines
        (start.record [] [.begin false, .begin false,
          .write 0 Region.start [1, 2, 3, 4, 5, 6, 7, 8],
          .write 1 (Region.start.advance 8) [8, 7, 6, 5, 4, 3, 2, 1], .finish 0])
        (start.run [.begin false, .begin false, .write 0 Region.start [1, 2, 3, 4, 5, 6, 7, 8],
          .write 1 (Region.start.advance 8) [8, 7, 6, 5, 4, 3, 2, 1], .finish 0]).2 :=
  ⟨_, rfl, @run_refines { size := 16, align := 8 } _ rfl _
    ⟨trivial, trivial, trivial, trivial, fun hfalse => absurd hfalse (by decide +kernel), trivial⟩⟩

end Session

end TransactionalMemory
