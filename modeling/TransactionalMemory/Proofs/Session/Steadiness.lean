import TransactionalMemory.Proofs.Region.Allocation
import TransactionalMemory.Proofs.Region.Release
import TransactionalMemory.Proofs.Session.Effects

/-! # Steady sessions

    What holds of a session between its operations, whatever was done to it,
    orderly or not. Every id was given to one transaction only; what slots hold
    is there; and the logs of claims say who the accessors are:

    - a word in the log of an open transaction has this transaction as its
      accessor, unless the segment of the word was released;
    - a word that has an accessor is in the log of an open transaction.

    Every effect keeps sessions steady. -/

namespace TransactionalMemory

namespace Transaction

variable {t : Transaction} {r r' : Region}

/-- A read-write transaction has an id of its own. -/
theorem mode_of_readWrite (hrw : t.isReadOnly = false) : t.mode = .readWrite t.id := by
  cases hm : t.mode with
  | readOnly => rw [isReadOnly, hm] at hrw; cases hrw
  | readWrite id => rw [Transaction.id, hm]; rfl

theorem id_of_readOnly (hro : t.isReadOnly = true) : t.id = .readOnly := by
  cases hm : t.mode with
  | readOnly => rw [Transaction.id, hm]; rfl
  | readWrite id => rw [isReadOnly, hm] at hro; cases hro

/-- The transaction is the accessor of the words in its log of claims, as far as
    their segments were not released. -/
def Claims (t : Transaction) (r : Region) : Prop :=
  ∀ ref ∈ t.touched, ref.segment < r.segments.size ∧
    ((r.segment? ref.segment).isSome →
      ∃ c, r.cell? ref = some c ∧ c.accessor = some t.id)

/-- Claims stay as long as the cells of the transaction keep their accessor. -/
theorem Claims.mono (h : t.Claims r) (hsize : r.segments.size ≤ r'.segments.size)
    (hkept : ∀ n, n < r.segments.size → (r'.segment? n).isSome → (r.segment? n).isSome)
    (hcells : ∀ ref c, (r'.segment? ref.segment).isSome → r.cell? ref = some c →
      c.accessor = some t.id → ∃ c', r'.cell? ref = some c' ∧ c'.accessor = some t.id) :
    t.Claims r' := by
  intro ref href
  obtain ⟨hlt, hcell⟩ := h ref href
  refine ⟨Nat.lt_of_lt_of_le hlt hsize, fun hsome => ?_⟩
  obtain ⟨c, hc, hid⟩ := hcell (hkept _ hlt hsome)
  exact hcells ref c hsome hc hid

end Transaction

namespace Session

variable {s s' : Session} {h k : Handle} {t t' u : Transaction} {r' : Region}

/-- What holds of a session between its operations. -/
structure Steady (s : Session) : Prop where
  sized : s.region.Sized
  shaped : s.region.Shaped
  backed : s.region.Backed
  unissued : s.region.ids.issued < TransactionId.readOnly.val
  issued : ∀ h t id, s.open? h = some t → t.mode = .readWrite id → id.val ≤ s.region.ids.issued
  identities : ∀ h k t u id, s.open? h = some t → s.open? k = some u →
    t.mode = .readWrite id → u.mode = .readWrite id → h = k
  claims : ∀ h t, s.open? h = some t → t.Claims s.region
  /-- A word that has an accessor is in the log of an open transaction. -/
  accessors : ∀ ref c id, s.region.cell? ref = some c → c.accessor = some id →
    ∃ h t, s.open? h = some t ∧ t.mode = .readWrite id ∧ ref ∈ t.touched
  pending : ∀ ref c, s.region.cell? ref = some c → c.pending ≠ none → c.accessor ≠ none

namespace Steady

/-! ## Accessors -/

/-- The accessor of a word has it in its log. -/
theorem mem_touched (hs : s.Steady) (ho : s.open? h = some t) (hrw : t.isReadOnly = false)
    {ref : WordRef} {c : Cell} (hc : s.region.cell? ref = some c)
    (hid : c.accessor = some t.id) : ref ∈ t.touched := by
  obtain ⟨k, u, hu, hmode, hmem⟩ := hs.accessors ref c t.id hc hid
  have hhk := hs.identities h k t u t.id ho hu (Transaction.mode_of_readWrite hrw) hmode
  rw [hhk, hu] at ho
  exact Option.some.inj ho ▸ hmem

/-- A read-only transaction is the accessor of no word: the id that they share
    is never given out. -/
theorem accessor_ne_readOnly (hs : s.Steady) (hro : t.isReadOnly = true) {ref : WordRef}
    {c : Cell} (hc : s.region.cell? ref = some c) : c.accessor ≠ some t.id := by
  intro hid
  obtain ⟨k, u, hu, hum, -⟩ := hs.accessors ref c t.id hc hid
  have hle := hs.issued k u t.id hu hum
  have hlt := hs.unissued
  rw [Transaction.id_of_readOnly hro] at hle
  omega

/-- A transaction is not the accessor of a word that it has not in its log. -/
theorem accessor_ne (hs : s.Steady) (ho : s.open? h = some t) {ref : WordRef} {c : Cell}
    (hc : s.region.cell? ref = some c) (hmem : ref ∉ t.touched) : c.accessor ≠ some t.id := by
  by_cases hro : t.isReadOnly = true
  · exact hs.accessor_ne_readOnly hro hc
  · exact fun hid => hmem (hs.mem_touched ho (Bool.eq_false_iff.2 hro) hc hid)

/-- Two open read-write transactions have different ids. -/
theorem id_ne (hs : s.Steady) (ho : s.open? h = some t) (hu : s.open? k = some u) (hk : k ≠ h)
    (ht : t.isReadOnly = false) : u.id ≠ t.id := by
  intro heq
  have htm := Transaction.mode_of_readWrite ht
  by_cases hro : u.isReadOnly = true
  · -- The reserved id was not issued to `t`.
    have huid := Transaction.id_of_readOnly hro
    have hle := hs.issued h t t.id ho htm
    have hlt := hs.unissued
    rw [← heq, huid] at hle
    omega
  · have hum := Transaction.mode_of_readWrite (Bool.eq_false_iff.2 hro)
    rw [heq] at hum
    exact hk (hs.identities k h u t t.id hu ho hum htm)

end Steady

/-! ## One transaction is put back -/

/-- What is left to show when one transaction goes on with other logs, in a
    region with the same ids. -/
theorem Steady.put (hs : s.Steady) (ho : s.open? h = some t) (hmode : t'.mode = t.mode)
    (hsettings : r'.settings = s.region.settings) (hids : r'.ids = s.region.ids)
    (hshaped : r'.Shaped) (hbacked : r'.Backed) (hclaims : t'.Claims r')
    (hothers : ∀ k u, k ≠ h → s.open? k = some u → u.Claims r')
    (haccessors : ∀ ref c id, r'.cell? ref = some c → c.accessor = some id →
      (t'.mode = .readWrite id ∧ ref ∈ t'.touched) ∨
        ((∃ c₀, s.region.cell? ref = some c₀ ∧ c₀.accessor = some id) ∧
          (ref ∈ t.touched → ref ∈ t'.touched)))
    (hpending : ∀ ref c, r'.cell? ref = some c → c.pending ≠ none → c.accessor ≠ none) :
    (s.put h (some t') r').Steady := by
  have hself : (s.put h (some t') r').open? h = some t' := open?_put_self ho
  have hother : ∀ k, k ≠ h → (s.put h (some t') r').open? k = s.open? k := fun k hk =>
    open?_put_ne hk
  -- Whoever is open now was open before, in the same mode.
  have hbefore : ∀ k u, (s.put h (some t') r').open? k = some u →
      ∃ u₀, s.open? k = some u₀ ∧ u.mode = u₀.mode := by
    intro k u hu
    by_cases hk : k = h
    · subst hk
      rw [hself] at hu
      cases hu
      exact ⟨t, ho, hmode⟩
    · rw [hother k hk] at hu
      exact ⟨u, hu, rfl⟩
  have hwordSize := Region.wordSize_congr hsettings
  constructor
  · exact hs.sized.congr hwordSize
  · exact hshaped
  · exact hbacked
  · -- Ids are given out by beginnings only.
    show r'.ids.issued < _
    rw [hids]
    exact hs.unissued
  · intro k u id hu hum
    obtain ⟨u₀, hu₀, hmode₀⟩ := hbefore k u hu
    show id.val ≤ r'.ids.issued
    rw [hids]
    exact hs.issued k u₀ id hu₀ (hmode₀ ▸ hum)
  · intro j k v u id hv hu hvm hum
    obtain ⟨v₀, hv₀, hvm₀⟩ := hbefore j v hv
    obtain ⟨u₀, hu₀, hum₀⟩ := hbefore k u hu
    exact hs.identities j k v₀ u₀ id hv₀ hu₀ (hvm₀ ▸ hvm) (hum₀ ▸ hum)
  · -- The transaction has its new claims, the others those that they had.
    intro k u hu
    by_cases hk : k = h
    · subst hk
      rw [hself] at hu
      cases hu
      exact hclaims
    · rw [hother k hk] at hu
      exact hothers k u hk hu
  · -- An accessor that is not new has kept its word in the log.
    intro ref c id hc hid
    rcases haccessors ref c id hc hid with ⟨hm, hmem⟩ | ⟨⟨c₀, hc₀, hid₀⟩, hkept⟩
    · exact ⟨h, t', hself, hm, hmem⟩
    · obtain ⟨k, u, hu, hum, hmem⟩ := hs.accessors ref c₀ id hc₀ hid₀
      by_cases hk : k = h
      · subst hk
        rw [ho] at hu
        cases hu
        exact ⟨k, t', hself, hmode.trans hum, hkept hmem⟩
      · exact ⟨k, u, (hother k hk).trans hu, hum, hmem⟩
  · exact hpending

/-! ## The beginning -/

/-- Who begins is read-only, or gets the next id, if there is one left. -/
theorem identify?_inv {r : Region} {readOnly : Bool} {mode : Mode} {region : Region}
    (h : r.identify? readOnly = .ok (mode, region)) :
    region = { r with ids := region.ids } ∧
      ((readOnly = true ∧ mode = .readOnly ∧ region.ids = r.ids) ∨
        ∃ id, readOnly = false ∧ mode = .readWrite id ∧ id.val = r.ids.issued + 1 ∧
          region.ids.issued = r.ids.issued + 1 ∧
          region.ids.issued < TransactionId.readOnly.val) := by
  unfold Region.identify? at h
  cases readOnly with
  | true =>
    cases h
    exact ⟨rfl, .inl ⟨rfl, rfl, rfl⟩⟩
  | false =>
    rcases hmint : r.ids.mint? with _ | ⟨id, ids⟩
    · rw [hmint] at h; cases h
    · rw [hmint] at h
      cases h
      unfold IdSource.mint? at hmint
      split at hmint
      next hlt =>
        cases hmint
        exact ⟨rfl, .inr ⟨_, rfl, rfl, rfl, rfl, hlt⟩⟩
      next => cases hmint

/-- Who begins is of the kind that was asked for. -/
theorem isReadOnly_of_identify? {r : Region} {readOnly : Bool} {mode : Mode} {region : Region}
    (h : r.identify? readOnly = .ok (mode, region)) : mode.isReadOnly = readOnly := by
  rcases (identify?_inv h).2 with ⟨rfl, rfl, -⟩ | ⟨id, rfl, rfl, -⟩ <;> rfl

/-- Nobody is kept from beginning but by the ids. -/
theorem identify?_refused {r : Region} {readOnly : Bool} {failure : Failure}
    (h : r.identify? readOnly = .error failure) : failure = .idsExhausted := by
  unfold Region.identify? at h
  cases readOnly with
  | true => cases h
  | false =>
    cases hmint : r.ids.mint? with
    | none => rw [hmint] at h; cases h; rfl
    | some minted => rw [hmint] at h; cases h

/-- What the beginning of a transaction comes to. -/
structure Begins (s s' : Session) (t : Transaction) : Prop where
  settings_eq : s'.region.settings = s.region.settings
  segments_eq : s'.region.segments = s.region.segments
  table_eq : s'.region.table = s.region.table
  collector_eq : s'.region.collector = s.region.collector.pin
  bytesInUse_eq : s'.region.bytesInUse = s.region.bytesInUse
  reclaimed_eq : s'.region.reclaimed = s.region.reclaimed
  size : s'.transactions.size = s.transactions.size + 1
  self : s'.open? s.transactions.size = some t
  others : ∀ k, k ≠ s.transactions.size → s'.open? k = s.open? k
  pinned : s'.pinnedIn = EpochClock.joined s.pinnedIn t.epoch
  epoch_eq : t.epoch = s.region.collector.epoch
  unlogged : t.touched = [] ∧ t.observed = [] ∧ t.allocated = [] ∧ t.freed = []
  /-- It is read-only, or has the next id. -/
  identified : (t.mode = .readOnly ∧ s'.region.ids = s.region.ids) ∨
    ∃ id, t.mode = .readWrite id ∧ id.val = s.region.ids.issued + 1 ∧
      s'.region.ids.issued = s.region.ids.issued + 1 ∧
      s'.region.ids.issued < TransactionId.readOnly.val

theorem begins_enter {readOnly : Bool} {mode : Mode} {region : Region}
    (hidentified : s.region.identify? readOnly = .ok (mode, region)) :
    Begins s (enter { s with region } mode).2 { mode, epoch := s.region.collector.epoch } := by
  obtain ⟨hregion, hmode⟩ := identify?_inv hidentified
  have hcollector : region.collector = s.region.collector := by rw [hregion]
  have hnew : (region.enter mode).1 = { mode, epoch := s.region.collector.epoch } := by
    rw [← hcollector]; rfl
  have hpush : (enter { s with region } mode).2.transactions
      = s.transactions.push (some { mode, epoch := s.region.collector.epoch }) := by
    rw [← hnew]; rfl
  constructor
  · show region.settings = _
    rw [hregion]
  · show region.segments = _
    rw [hregion]
  · show region.table = _
    rw [hregion]
  · show region.collector.pin = _
    rw [hcollector]
  · show region.bytesInUse = _
    rw [hregion]
  · show region.reclaimed = _
    rw [hregion]
  · rw [hpush, Array.size_push]
  · exact (open?_enter_self { s with region } mode).trans (congrArg some hnew)
  · exact fun k hk => open?_enter_ne { s with region } mode hk
  · -- One more transaction is open in the epoch of the new one.
    funext e
    unfold pinnedIn EpochClock.joined
    rw [hpush, Array.toList_push, List.countP_append]
    by_cases he : e = s.region.collector.epoch
    · simp [he]
    · simp [he, Ne.symm he]
  · rfl
  · exact ⟨rfl, rfl, rfl, rfl⟩
  · rcases hmode with ⟨-, hmode, hids⟩ | ⟨id, -, hid⟩
    · exact .inl ⟨hmode, hids⟩
    · exact .inr ⟨id, hid⟩

namespace Begins

/-- Whoever is open afterwards was open before, or is the new one. -/
theorem before (hb : Begins s s' t) (hu : s'.open? k = some u) :
    s.open? k = some u ∨ (k = s.transactions.size ∧ u = t) := by
  by_cases hk : k = s.transactions.size
  · rw [hk, hb.self] at hu
    exact .inr ⟨hk, (Option.some.inj hu).symm⟩
  · rw [hb.others k hk] at hu
    exact .inl hu

/-- Whoever was open before is open afterwards. -/
theorem after (hb : Begins s s' t) (hu : s.open? k = some u) : s'.open? k = some u :=
  (hb.others k (Nat.ne_of_lt (lt_size_of_open hu))).trans hu

end Begins

/-! ## Effects -/

namespace Steady

/-- A transaction keeps its claims when the contents of words change, and with
    them no accessor of its own. -/
theorem claims_sameButWords {r : Region} (hclaims : u.Claims r) (hsame : r.SameButWords r')
    (hcells : ∀ ref c, r.cell? ref = some c → c.accessor = some u.id →
      ∃ c', r'.cell? ref = some c' ∧ c'.accessor = some u.id) : u.Claims r' := by
  refine hclaims.mono (Nat.le_of_eq hsame.size.symm) (fun n _ hsome => ?_)
    fun ref c _ => hcells ref c
  have hlayout := congrArg Option.isSome (hsame.layout n)
  rwa [Option.isSome_map, Option.isSome_map, hsome, eq_comm] at hlayout

/-- An access to a word. -/
theorem accessed (hs : s.Steady) (ho : s.open? h = some t) (hrw : t.isReadOnly = false)
    {a : Access} (hstep : t.WordStep s.region a t' r') : (s.put h (some t') r').Steady := by
  obtain ⟨c, c', g, hc, hbecomes, -, heq, -⟩ := hstep.inv
  have hsame := hbecomes.toSameButWords
  have hmode : t'.mode = t.mode := by rw [heq, Transaction.mode_log]
  have hid : t'.id = t.id := by rw [heq, Transaction.id_log]
  have hclaims : ∀ k u, s.open? k = some u → u.Claims r' := fun k u hu =>
    claims_sameButWords (hs.claims k u hu) hsame fun ref c => hstep.accessor_after
  refine hs.put ho hmode hsame.settings_eq hsame.ids_eq (hsame.shaped hs.shaped)
    (hs.backed.of_sameButWords hsame) ?_ (fun k u _ hu => hclaims k u hu) ?_
    (fun ref c => hstep.pending_after hs.pending)
  · -- The transaction has claimed what it had, and what is new in its log.
    intro ref href
    rw [hid]
    rcases hstep.touched_before href with hold | ⟨c, hc, haccessor⟩
    · exact hclaims h t ho ref hold
    · exact ⟨Region.lt_size_of_cell? hc, fun _ => ⟨c, hc, haccessor⟩⟩
  · -- Whoever is an accessor was one, or is the transaction itself.
    intro ref c id hc haccessor
    rcases hstep.accessor_before hc haccessor with hbefore | ⟨rfl, hmem⟩
    · refine .inr ⟨hbefore, fun href => ?_⟩
      rw [heq]
      exact Transaction.mem_touched_log g href
    · exact .inl ⟨hmode.trans (Transaction.mode_of_readWrite hrw), hmem⟩

/-- A transaction is doomed. -/
theorem doomed (hs : s.Steady) (ho : s.open? h = some t) :
    (s.put h (some t.doom) s.region).Steady :=
  hs.put ho rfl rfl rfl hs.shaped hs.backed (hs.claims h t ho) (fun k u _ hu => hs.claims k u hu)
    (fun _ c _ hc hid => .inr ⟨⟨c, hc, hid⟩, id⟩) hs.pending

/-- An allocation. -/
theorem allocated (hs : s.Steady) (ho : s.open? h = some t) {size i : Nat}
    (hwhole : s.region.wordSize ∣ size) (hgranted : s.region.allocate? size = some (i, r')) :
    (s.put h (some { t with allocated := i :: t.allocated }) r').Steady := by
  have hgrows := Region.grows_of_allocate? hgranted
  have hcells := hgrows.cell?_eq hs.sized hwhole
  have hclaims : ∀ k u, s.open? k = some u → u.Claims r' := by
    intro k u hu
    refine (hs.claims k u hu).mono hgrows.size_le (fun n hn hsome => ?_) fun ref c _ hc hid => ?_
    · rwa [hgrows.segment?_eq, if_neg (Nat.ne_of_lt hn)] at hsome
    · rcases hcells ref with heq | ⟨_, hnone, _⟩
      · exact ⟨c, heq.trans hc, hid⟩
      · rw [hnone] at hc; cases hc
  refine hs.put ho rfl hgrows.settings_eq hgrows.ids_eq (hgrows.shaped hs.shaped hs.sized hwhole)
    (hgrows.backed hs.backed) (hclaims h t ho) (fun k u _ hu => hclaims k u hu) ?_ ?_
  · -- Fresh words have no accessor.
    intro ref c id hc hid
    rcases hcells ref with heq | ⟨_, _, hfresh⟩
    · exact .inr ⟨⟨c, heq ▸ hc, hid⟩, fun hmem => hmem⟩
    · rw [hfresh] at hc; cases hc; cases hid
  · -- Nor have they a pending write.
    intro ref c hc hpending
    rcases hcells ref with heq | ⟨_, _, hfresh⟩
    · exact hs.pending ref c (heq ▸ hc) hpending
    · rw [hfresh] at hc; cases hc; exact absurd rfl hpending

/-- A free. -/
theorem freed (hs : s.Steady) (ho : s.open? h = some t) (i : Nat) :
    (s.put h (some { t with freed := i :: t.freed })
      { s.region with table := s.region.table.mark i }).Steady :=
  hs.put ho rfl rfl rfl hs.shaped ((Region.rearranges_mark s.region i).backed hs.backed)
    (hs.claims h t ho) (fun k u _ hu => hs.claims k u hu)
    (fun _ c _ hc hid => .inr ⟨⟨c, hc, hid⟩, fun hmem => hmem⟩) hs.pending

/-! ## The end -/

/-- The end of a transaction settles every cell: those that are not in its log
    are none of its own. -/
theorem cells_settles (hs : s.Steady) (ho : s.open? h = some t) {committed : Bool}
    (hend : t.Settles s.region committed r') (ref : WordRef) :
    r'.cell? ref = (s.region.cell? ref).map (·.settled t.id committed) := by
  rw [hend.cells ref]
  split
  · rfl
  next hmem =>
    cases hc : s.region.cell? ref with
    | none => rfl
    | some c => rw [Option.map_some, Cell.settled_of_accessor_ne (hs.accessor_ne ho hc hmem)]

/-- No two open transactions are the accessor of one word. -/
theorem accessor_ne_of_other (hs : s.Steady) (ho : s.open? h = some t) (hu : s.open? k = some u)
    (hk : k ≠ h) {ref : WordRef} {c : Cell} (hc : s.region.cell? ref = some c)
    (hid : c.accessor = some u.id) : c.accessor ≠ some t.id := by
  intro hown
  by_cases hro : t.isReadOnly = true
  · exact hs.accessor_ne_readOnly hro hc hown
  · rw [hid] at hown
    exact hs.id_ne ho hu hk (Bool.eq_false_iff.2 hro) (Option.some.inj hown)

/-- The words of another transaction that is open are not settled. -/
theorem settled_of_other (hs : s.Steady) (ho : s.open? h = some t) (hu : s.open? k = some u)
    (hk : k ≠ h) {ref : WordRef} {c : Cell} (hc : s.region.cell? ref = some c)
    (hid : c.accessor = some u.id) (committed : Bool) : c.settled t.id committed = c :=
  Cell.settled_of_accessor_ne (hs.accessor_ne_of_other ho hu hk hc hid) committed

/-- What another transaction has claimed it goes on having claimed. -/
theorem claims_settles (hs : s.Steady) (ho : s.open? h = some t) {committed : Bool}
    (hend : t.Settles s.region committed r') (hu : s.open? k = some u) (hk : k ≠ h) :
    u.Claims r' := by
  refine (hs.claims k u hu).mono (Nat.le_of_eq hend.size.symm) (fun n _ hsome => ?_)
    fun ref c _ hc hid => ?_
  · have hlayout := congrArg Option.isSome (hend.layout n)
    rwa [Option.isSome_map, Option.isSome_map, hsome, eq_comm] at hlayout
  · rw [hs.cells_settles ho hend, hc, Option.map_some, hs.settled_of_other ho hu hk hc hid]
    exact ⟨c, rfl, hid⟩

/-- An accessor that is left was the accessor before, and is not the one that ended. -/
theorem accessors_settles (hs : s.Steady) (ho : s.open? h = some t) {committed : Bool}
    (hend : t.Settles s.region committed r') {ref : WordRef} {c : Cell} {id : TransactionId}
    (hc : r'.cell? ref = some c) (hid : c.accessor = some id) :
    ∃ k u, k ≠ h ∧ s.open? k = some u ∧ u.mode = .readWrite id ∧ ref ∈ u.touched := by
  have hcell := hs.cells_settles ho hend ref
  rw [hc] at hcell
  obtain ⟨c₀, hc₀, rfl⟩ := Option.map_eq_some_iff.1 hcell.symm
  rw [Cell.accessor_settled] at hid
  split at hid
  · cases hid
  next hne =>
    obtain ⟨k, u, hu, hum, hmem⟩ := hs.accessors ref c₀ id hc₀ hid
    refine ⟨k, u, fun heq => ?_, hu, hum, hmem⟩
    -- Otherwise its own accessor would have been cleared.
    rw [heq, ho] at hu
    cases hu
    have htid : t.id = id := by rw [Transaction.id, hum]; rfl
    exact hne (htid ▸ hid)

/-- A write that is left pending was pending before. -/
theorem pending_settles (hs : s.Steady) (ho : s.open? h = some t) {committed : Bool}
    (hend : t.Settles s.region committed r') {ref : WordRef} {c : Cell}
    (hc : r'.cell? ref = some c) (hpending : c.pending ≠ none) : c.accessor ≠ none := by
  have hcell := hs.cells_settles ho hend ref
  rw [hc] at hcell
  obtain ⟨c₀, hc₀, rfl⟩ := Option.map_eq_some_iff.1 hcell.symm
  by_cases hid : c₀.accessor = some t.id
  · rw [Cell.settled, if_pos hid] at hpending
    exact absurd rfl hpending
  · rw [Cell.settled_of_accessor_ne hid] at hpending ⊢
    exact hs.pending ref c₀ hc₀ hpending

/-- The end of a transaction. -/
theorem ended (hs : s.Steady) (ho : s.open? h = some t) (committed : Bool) :
    (s.put h none (t.conclusion s.region committed)).Steady := by
  have hend := t.settles_conclusion s.region committed
  generalize t.conclusion s.region committed = r' at hend
  have hwordSize := Region.wordSize_congr hend.settings_eq
  constructor
  · exact hs.sized.congr hwordSize
  · exact hend.shaped hs.shaped
  · exact hend.backed hs.backed
  · -- No id is given out.
    show r'.ids.issued < _
    rw [hend.ids_eq]
    exact hs.unissued
  · intro k u id hu hum
    show id.val ≤ r'.ids.issued
    rw [hend.ids_eq]
    exact hs.issued k u id (open?_of_put_none ho hu).1 hum
  · intro j k v u id hv hu
    exact hs.identities j k v u id (open?_of_put_none ho hv).1 (open?_of_put_none ho hu).1
  · -- Whoever is still open has claimed other words.
    intro k u hu
    obtain ⟨hu, hk⟩ := open?_of_put_none ho hu
    exact hs.claims_settles ho hend hu hk
  · -- An accessor that is left is not the transaction that ended.
    intro ref c id hc hid
    obtain ⟨k, u, hk, hu, hum, hmem⟩ := hs.accessors_settles ho hend hc hid
    exact ⟨k, u, (open?_put_ne hk).trans hu, hum, hmem⟩
  · exact fun ref c => hs.pending_settles ho hend

/-- The beginning of a transaction. -/
theorem began (hs : s.Steady) (hb : Begins s s' t) : s'.Steady := by
  have hcells := Region.cell?_congr hb.segments_eq
  have hsegment : ∀ n, s'.region.segment? n = s.region.segment? n := by
    intro n
    unfold Region.segment?
    rw [hb.segments_eq]
  have hwordSize := Region.wordSize_congr hb.settings_eq
  constructor
  · exact hs.sized.congr hwordSize
  · exact hs.shaped.congr hb.segments_eq hb.settings_eq
  · -- Segments, slots and what waits are as they were.
    refine hs.backed.congr (funext fun n => ?_) (by rw [hb.segments_eq]) hb.table_eq
      (by rw [hb.collector_eq]; rfl)
    rw [Region.slotOf?, hsegment]; rfl
  · -- The next id was only given out if it is not the reserved one.
    rcases hb.identified with ⟨_, heq⟩ | ⟨id, _, _, _, hlt⟩
    · rw [heq]; exact hs.unissued
    · exact hlt
  · -- The new id is the last one that was issued.
    intro k u id hu hum
    rcases hb.before hu with hu | ⟨_, rfl⟩
    · have hle := hs.issued k u id hu hum
      rcases hb.identified with ⟨_, heq⟩ | ⟨_, _, _, heq, _⟩ <;> rw [heq]
      · exact hle
      · exact Nat.le_succ_of_le hle
    · rcases hb.identified with ⟨hm, _⟩ | ⟨new, hm, hval, heq, _⟩ <;> rw [hum] at hm <;> cases hm
      exact Nat.le_of_eq (by rw [heq, hval])
  · -- The new id is above all that were given out before.
    have hnew : ∀ k u id, s.open? k = some u → u.mode = .readWrite id → t.mode ≠ .readWrite id := by
      intro k u id hu hum htm
      have hle := hs.issued k u id hu hum
      rcases hb.identified with ⟨hm, _⟩ | ⟨new, hm, hval, _, _⟩ <;> rw [htm] at hm <;> cases hm
      omega
    intro j k v u id hv hu hvm hum
    rcases hb.before hv with hv | ⟨hj, rfl⟩ <;> rcases hb.before hu with hu | ⟨hk, rfl⟩
    · exact hs.identities j k v u id hv hu hvm hum
    · exact absurd hum (hnew j v id hv hvm)
    · exact absurd hvm (hnew k u id hu hum)
    · rw [hj, hk]
  · -- The new transaction has claimed nothing yet.
    intro k u hu
    rcases hb.before hu with hu | ⟨_, rfl⟩
    · refine (hs.claims k u hu).mono (Nat.le_of_eq (by rw [hb.segments_eq])) (fun n _ hsome => ?_)
        fun ref c _ hc hid => ⟨c, (hcells ref).trans hc, hid⟩
      rwa [hsegment] at hsome
    · intro ref href
      rw [hb.unlogged.1] at href
      cases href
  · intro ref c id hc hid
    rw [hcells ref] at hc
    obtain ⟨k, u, hu, hrest⟩ := hs.accessors ref c id hc hid
    exact ⟨k, u, hb.after hu, hrest⟩
  · intro ref c hc
    rw [hcells ref] at hc
    exact hs.pending ref c hc

/-- Segments may be released that are in no slot any more. -/
theorem drops (hs : s.Steady) (hdrops : s.region.Drops r') (hbacked : r'.Backed) :
    Steady { s with region := r' } := by
  constructor
  · exact hs.sized.congr hdrops.wordSize_eq
  · exact hdrops.shaped hs.shaped
  · exact hbacked
  · show r'.ids.issued < _
    rw [hdrops.ids_eq]
    exact hs.unissued
  · intro k u id hu hum
    show id.val ≤ r'.ids.issued
    rw [hdrops.ids_eq]
    exact hs.issued k u id hu hum
  · exact hs.identities
  · -- A segment that is still there has all its words.
    intro k u hu
    refine (hs.claims k u hu).mono (Nat.le_of_eq hdrops.size.symm) (fun n _ hsome => ?_)
      fun ref c hsome hc hid => ⟨c, (hdrops.cell?_of_isSome hsome).trans hc, hid⟩
    rcases hdrops.segments n with heq | hnone
    · exact heq ▸ hsome
    · change (r'.segment? n).isSome = true at hsome
      rw [hnone] at hsome; cases hsome
  · exact fun ref c id hc hid => hs.accessors ref c id (hdrops.cell?_of_some hc) hid
  · exact fun ref c hc => hs.pending ref c (hdrops.cell?_of_some hc)

/-- A collection. -/
theorem collected (hs : s.Steady) : Steady { s with region := s.region.collect.2 } :=
  hs.drops s.region.drops_collect hs.backed.collect

/-- An attempt to allocate that fails. -/
theorem missed (hs : s.Steady) (hfails : s.region.Fails r') : Steady { s with region := r' } := by
  have hbacked := hfails.backed hs.backed
  obtain ⟨table, -, rfl⟩ := hfails.inv
  exact hs.drops ⟨rfl, rfl, rfl, fun _ => .inl rfl⟩ hbacked

end Steady

variable {orderly : Prop} {events : History}

/-- A steady session stays steady, whatever is done to it. -/
theorem Steady.effect (hs : s.Steady) (e : Effect orderly s events s') : s'.Steady := by
  cases e with
  | began identified => exact hs.began (begins_enter identified)
  | accessed isOpen readWrite found step => exact hs.accessed isOpen readWrite step
  | doomed isOpen => exact hs.doomed isOpen
  | allocated isOpen readWrite whole granted => exact hs.allocated isOpen whole granted
  | missed fails => exact hs.missed fails
  | freed isOpen readWrite live removable => exact hs.freed isOpen _
  | ended isOpen _ _ => exact hs.ended isOpen _
  | collected => exact hs.collected

theorem Steady.effects (hs : s.Steady) (e : Effects orderly s events s') : s'.Steady :=
  e.keep (fun e hs => hs.effect e) hs

/-- The settings never change. -/
theorem settings_effect (e : Effect orderly s events s') :
    s'.region.settings = s.region.settings := by
  cases e with
  | began identified => exact (begins_enter identified).settings_eq
  | accessed isOpen readWrite found step =>
    obtain ⟨_, _, _, _, hbecomes, _⟩ := step.inv
    exact hbecomes.toSameButWords.settings_eq
  | doomed isOpen => rfl
  | allocated isOpen readWrite whole granted =>
    exact (Region.grows_of_allocate? granted).settings_eq
  | missed fails =>
    obtain ⟨table, -, rfl⟩ := fails.inv
    rfl
  | freed isOpen readWrite live removable => rfl
  | ended isOpen valid gives => exact (Transaction.settles_conclusion ..).settings_eq
  | collected => exact s.region.drops_collect.settings_eq

/-- Words keep their size. -/
theorem wordSize_effect (e : Effect orderly s events s') :
    s'.region.wordSize = s.region.wordSize := by
  rw [Region.wordSize, settings_effect e]
  rfl

theorem wordSize_effects (e : Effects orderly s events s') :
    s'.region.wordSize = s.region.wordSize := by
  induction e with
  | nil => rfl
  | snoc _ last ih => exact (wordSize_effect last).trans ih

end Session

end TransactionalMemory
