import TransactionalMemory.Proofs.Session.Readings

/-! # Committed transactions are serial

    Every read that a transaction made of a word before it wrote that word still
    holds at the moment when the transaction commits. A word that the
    transaction has claimed has kept its value. A word that it observed has the
    same commit count as at the read, or the transaction would not commit, and
    the count tells the commits of the word apart as long as it does not wrap
    around meanwhile.

    So the committed transactions could as well have run one after the other, in
    the order of their ends, on a plain store of words. -/

namespace TransactionalMemory

abbrev Store : Type := WordRef → List UInt8

/-- Does an access on a plain store; a read must return what the store holds. -/
def Store.perform (store : Store) : Access → Option Store
  | .read ref bytes => if store ref = bytes then some store else none
  | .write ref bytes => some fun other => if other = ref then bytes else store other

namespace History

variable {h : Handle} {ref : WordRef} {hist past : History}

/-- Does the accesses of one transaction on a plain store, in their order. -/
def replay (h : Handle) (store : Store) : History → Option Store
  | [] => some store
  | .accessed k a :: past =>
    if k = h then (replay h store past).bind (·.perform a) else replay h store past
  | _ :: past => replay h store past

/-- Does the committed transactions on a plain store of zeros, each one as a
    whole, in the order of their ends. -/
def serial (wordSize : Nat) : History → Option Store
  | [] => some fun _ => List.replicate wordSize 0
  | .ended h true :: past => (serial wordSize past).bind fun store => replay h store past
  | _ :: past => serial wordSize past

/-- No word was committed `commitCounts` times while one transaction was open. -/
def FewCommits (hist : History) : Prop :=
  ∀ (during : History) (h : Handle) (before : History), during ++ .began h :: before <:+ hist →
    (∀ committed, .ended h committed ∉ during) →
      ∀ ref, commits ref (during ++ .began h :: before) < before.commits ref + commitCounts

theorem FewCommits.of_suffix (hfew : hist.FewCommits) (hsuffix : past <:+ hist) :
    past.FewCommits :=
  fun during h before hpart => hfew during h before (hpart.trans hsuffix)

/-! ## Commit counts -/

theorem commits_le_cons (ref : WordRef) (e : Event) (past : History) :
    past.commits ref ≤ commits ref (e :: past) := by
  match e with
  | .began _ => exact Nat.le_refl _
  | .accessed _ _ => exact Nat.le_refl _
  | .ended _ false => exact Nat.le_refl _
  | .ended _ true => exact Nat.le_add_right ..

theorem commits_le_of_suffix (ref : WordRef) (hsuffix : past <:+ hist) :
    past.commits ref ≤ hist.commits ref := by
  induction hist with
  | nil => exact Nat.le_of_eq (by rw [List.suffix_nil.1 hsuffix])
  | cons e rest ih =>
    rcases List.suffix_cons_iff.1 hsuffix with rfl | hrest
    · exact Nat.le_refl _
    · exact Nat.le_trans (ih hrest) (commits_le_cons ref e rest)

theorem commits_le_length (ref : WordRef) (hist : History) : hist.commits ref ≤ hist.length := by
  induction hist with
  | nil => exact Nat.le_refl _
  | cons e past ih =>
    match e with
    | .began _ => exact Nat.le_succ_of_le ih
    | .accessed _ _ => exact Nat.le_succ_of_le ih
    | .ended _ false => exact Nat.le_succ_of_le ih
    | .ended h true =>
      rw [commits, List.length_cons]
      split
      · exact Nat.succ_le_succ ih
      · exact Nat.le_succ_of_le ih

/-- A history that is short enough has few commits. -/
theorem FewCommits.of_length (hlength : hist.length < commitCounts) : hist.FewCommits := by
  intro during h before hsuffix _ ref
  have hle := commits_le_length ref (during ++ .began h :: before)
  have hpart := hsuffix.length_le
  omega

/-- An event that does not add to the commits of a word does not change its value. -/
theorem lastCommit_cons_of_commits_eq {e : Event}
    (heq : commits ref (e :: past) = past.commits ref) :
    lastCommit ref (e :: past) = past.lastCommit ref := by
  match e with
  | .began _ => rfl
  | .accessed _ _ => rfl
  | .ended _ false => rfl
  | .ended h true =>
    cases hw : past.lastWrite h ref with
    | none => simp [lastCommit, hw]
    | some bytes => simp [commits, hw] at heq

/-- As long as the commit count of a word stays the same, so does its value. -/
theorem value_eq_of_commits_eq (wordSize : Nat) (hsuffix : past <:+ hist)
    (heq : hist.commits ref = past.commits ref) :
    hist.value wordSize ref = past.value wordSize ref := by
  have hlast : hist.lastCommit ref = past.lastCommit ref := by
    induction hist with
    | nil => rw [List.suffix_nil.1 hsuffix]
    | cons e rest ih =>
      rcases List.suffix_cons_iff.1 hsuffix with rfl | hrest
      · rfl
      · -- The count is the same at every moment in between.
        have hle := commits_le_of_suffix ref hrest
        have hle' := commits_le_cons ref e rest
        have hrestEq : commits ref rest = past.commits ref := by omega
        rw [lastCommit_cons_of_commits_eq (heq.trans hrestEq.symm), ih hrest hrestEq]
  rw [value, value, hlast]

/-! ## Replaying one transaction -/

/-- If every read returned the latest write of its transaction, else what the
    store holds, then the accesses can be replayed and leave the latest writes. -/
theorem replay_eq {store : Store}
    (hreads : ∀ ref bytes (past : History), .accessed h (.read ref bytes) :: past <:+ hist →
      bytes = (past.lastWrite h ref).getD (store ref)) :
    replay h store hist = some fun ref => (hist.lastWrite h ref).getD (store ref) := by
  induction hist with
  | nil => rfl
  | cons e past ih =>
    have hpast := ih fun ref bytes past' hsuffix =>
      hreads ref bytes past' (hsuffix.trans (List.suffix_cons ..))
    cases e with
    | began _ => exact hpast
    | ended _ _ => exact hpast
    | accessed k a =>
      by_cases hk : k = h
      · subst hk
        rw [replay, if_pos rfl, hpast, Option.bind_some]
        cases a with
        | read ref bytes => exact if_pos (hreads ref bytes past (List.suffix_refl _)).symm
        | write ref bytes =>
          refine congrArg some (funext fun other => ?_)
          by_cases hother : other = ref
          · simp [lastWrite, hother]
          · simp [lastWrite, hother, Ne.symm hother]
      · rw [replay, if_neg hk, hpast]
        refine congrArg some (funext fun other => ?_)
        cases a with
        | read _ _ => rfl
        | write _ _ => simp [lastWrite, hk]

end History

namespace Session

variable {s s' : Session} {h : Handle} {t : Transaction} {hist past events : History}

/-! ## Reads hold until the commit -/

/-- While a transaction is open, no word is committed too often since it was read. -/
theorem commits_lt_of_open (htr : Traced hist s) (hfew : hist.FewCommits)
    (ho : s.open? h = some t) {a : Access} (hsuffix : .accessed h a :: past <:+ hist)
    (ref : WordRef) : hist.commits ref < past.commits ref + commitCounts := by
  obtain ⟨during, before, heq, hduring, hbefore⟩ := htr.opened h t ho
  have hlt := hfew during h before ⟨[], heq.symm⟩ hduring ref
  have hstart : .began h :: before <:+ hist := ⟨during, heq.symm⟩
  -- The transaction began before the access.
  have hle : History.commits ref before ≤ past.commits ref := by
    rcases List.suffix_or_suffix_of_suffix hsuffix hstart with hearly | hlate
    · have hmem := hearly.subset List.mem_cons_self
      exact absurd ((List.mem_cons.1 hmem).resolve_left nofun) (hbefore a)
    · rcases List.suffix_cons_iff.1 hlate with hsame | hpast
      · cases hsame
      · exact History.commits_le_of_suffix ref ((List.suffix_cons ..).trans hpast)
  rw [← heq] at hlt
  omega

/-- A word that a transaction has observed is there. -/
theorem Sound.cell?_of_observed (hs : s.Sound) (ho : s.open? h = some t) {ref : WordRef}
    {seq : Nat} (hobserved : ⟨ref, seq⟩ ∈ t.observed) : ∃ c, s.region.cell? ref = some c :=
  Option.isSome_iff_exists.1 ((hs.logged h t ho).words ref (.inr ⟨seq, hobserved⟩))

/-- Whether the observations of a transaction hold can be told from the cells. -/
theorem Sound.observationsHold_iff (hs : s.Sound) (ho : s.open? h = some t) :
    t.observationsHold s.region = true ↔
      ∀ o ∈ t.observed, ∀ c, s.region.cell? o.ref = some c → c.StillValid t.id o.seq := by
  rw [Transaction.observationsHold, List.all_eq_true]
  refine forall₂_congr fun o hobserved => ?_
  obtain ⟨c, hc⟩ := hs.cell?_of_observed ho hobserved
  obtain ⟨seg, hseg, -, hcell⟩ := Region.cell?_eq_some_iff.1 hc
  rw [hseg, Option.any_some, Segment.stillValid_iff, hcell]
  constructor
  · intro hvalid c' hc'
    cases hc.symm.trans hc'
    exact hvalid
  · exact fun hvalid => hvalid c hc

/-- A word that a transaction has observed at an access, and whose observation
    holds, has not been committed since. -/
theorem commits_eq_of_observed (hs : s.Sound) (htracks : Tracks hist s) (hfew : hist.FewCommits)
    (ho : s.open? h = some t) (hvalid : t.observationsHold s.region = true) {a : Access}
    (hsuffix : .accessed h a :: past <:+ hist) {ref : WordRef}
    (hobserved : ⟨ref, past.commits ref % commitCounts⟩ ∈ t.observed) :
    hist.commits ref = past.commits ref := by
  obtain ⟨c, hc⟩ := hs.cell?_of_observed ho hobserved
  have hcount := (htracks.represents.counts ref c hc).symm.trans
    ((hs.observationsHold_iff ho).1 hvalid _ hobserved c hc).1
  -- Equal counts modulo `commitCounts`, not too far apart, are equal.
  have hle := History.commits_le_of_suffix ref ((List.suffix_cons ..).trans hsuffix)
  have hlt := commits_lt_of_open htracks.traced hfew ho hsuffix ref
  have hpos : hist.commits ref - past.commits ref < commitCounts := by omega
  have hzero := Nat.sub_mod_eq_zero_of_mod_eq hcount
  rw [Nat.mod_eq_of_lt hpos] at hzero
  omega

/-- What a transaction read before it wrote the word is the committed value when
    the transaction can commit. -/
theorem committed?_of_read (hs : s.Sound) (htracks : Tracks hist s) (hfew : hist.FewCommits)
    (ho : s.open? h = some t)
    (hvalid : t.observationsHold s.region = true) {ref : WordRef} {bytes : List UInt8}
    (hsuffix : .accessed h (.read ref bytes) :: past <:+ hist)
    (hunwritten : past.lastWrite h ref = none) : s.region.committed? ref = some bytes := by
  have hrep := htracks.represents
  have htr := htracks.traced
  rw [Region.committed?_eq]
  rcases htr.relies h t ref bytes past ho hsuffix hunwritten with ⟨htouched, hvalue⟩ | hobserved
  · obtain ⟨c, hc, -⟩ := hs.cell?_of_touched ho htouched
    rw [hc, Option.map_some, hvalue c hc]
  · obtain ⟨c, hc⟩ := hs.cell?_of_observed ho hobserved
    have heq := commits_eq_of_observed hs htracks hfew ho hvalid hsuffix hobserved
    have hbytes := htr.coherent h ref bytes past hsuffix
    rw [hunwritten, Option.getD_none] at hbytes
    rw [hc, Option.map_some, hrep.values ref c hc, hbytes,
      History.value_eq_of_commits_eq _ ((List.suffix_cons ..).trans hsuffix) heq]

/-! ## The committed transactions, one after the other -/

/-- The words of a history can be had by running its committed transactions one
    after the other. -/
def Serializes (hist : History) (wordSize : Nat) : Prop :=
  hist.serial wordSize = some fun ref => hist.value wordSize ref

/-- The end of a transaction that commits goes on with the serial run. -/
theorem serializes_ended (hs : s.Sound) (htracks : Tracks hist s) (hfew : hist.FewCommits)
    (hserial : Serializes hist s.region.wordSize)
    (ho : s.open? h = some t) (hvalid : t.observationsHold s.region = true) :
    Serializes (.ended h true :: hist) s.region.wordSize := by
  have hreads : ∀ ref bytes (past : History), .accessed h (.read ref bytes) :: past <:+ hist →
      bytes = (past.lastWrite h ref).getD (hist.value s.region.wordSize ref) := by
    intro ref bytes past hsuffix
    cases hw : past.lastWrite h ref with
    | some written =>
      have hbytes := htracks.traced.coherent h ref bytes past hsuffix
      rw [hw] at hbytes
      exact hbytes
    | none =>
      have hheld := committed?_of_read hs htracks hfew ho hvalid hsuffix hw
      exact htracks.represents.committed?_eq hheld
  have hvalues : (fun ref => History.value s.region.wordSize ref (.ended h true :: hist))
      = fun ref => (hist.lastWrite h ref).getD (hist.value s.region.wordSize ref) :=
    funext fun ref => History.value_ended ..
  unfold Serializes at hserial ⊢
  rw [History.serial, hserial, Option.bind_some, History.replay_eq hreads, hvalues]

/-- Every effect keeps the serial run going. -/
theorem serializes_effect (hs : s.Sound) (htracks : Tracks hist s) (hfew : hist.FewCommits)
    (hserial : Serializes hist s.region.wordSize) (e : Effect True s events s') :
    Serializes (events ++ hist) s'.region.wordSize := by
  rw [wordSize_effect e]
  cases e with
  | @ended h t committed isOpen valid gives =>
    cases committed with
    | false => exact hserial
    | true => exact serializes_ended hs htracks hfew hserial isOpen (valid rfl).2
  | accessed isOpen readWrite found step =>
    split
    · exact hserial
    · exact hserial
  | began identified => exact hserial
  | doomed isOpen => exact hserial
  | allocated isOpen readWrite whole granted => exact hserial
  | missed fails =>
    obtain ⟨table, -, rfl⟩ := fails.inv
    exact hserial
  | freed isOpen readWrite live removable => exact hserial
  | collected => exact hserial

end Session

/-- The history of an orderly run in which no word is committed too often while
    one transaction is open can be had serially. -/
theorem Recorded.serializes {hist : History} {s : Session} (h : Recorded hist s)
    (hfew : hist.FewCommits) : Session.Serializes hist s.region.wordSize := by
  induction h with
  | created created => rfl
  | @step hist s before operation allowed ih =>
    have hchain : Effects True s _ _ :=
      Session.effects_step before.sound.toSteady operation fun _ => allowed
    have hstart := ih (hfew.of_suffix (List.suffix_append ..))
    -- The histories inside the operation are parts of the one after it.
    have hall := Effects.induct (P := fun hist s => s.Sound ∧ Session.Tracks hist s ∧
        (hist.FewCommits → Session.Serializes hist s.region.wordSize))
      (fun e ⟨hs, htracks, hserial⟩ => ⟨hs.effect e, htracks.effect e, fun hfew =>
        have hfew := hfew.of_suffix (List.suffix_append ..)
        Session.serializes_effect hs htracks hfew (hserial hfew) e⟩)
      hchain ⟨before.sound, before.tracks, fun _ => hstart⟩
    exact hall.2.2 hfew

namespace Session

/-- After every orderly run in which no word is committed too often while one
    transaction is open: what a transaction read of a word that it had not
    written is the committed value of the word right before the transaction
    commits; and the committed transactions, done one after the other on a plain
    store in the order of their ends, return everything that they read, and
    leave the committed contents of all words. -/
theorem run_serializable {settings : Settings} {start s : Session}
    (hcreate : create settings = .ok start) {operations : List Operation}
    (horderly : start.Orderly operations) (hrun : (start.run operations).2 = s)
    {hist : History} (hrecord : start.record [] operations = hist) (hfew : hist.FewCommits) :
    (∀ h, (s.finish h).1 = some true → ∀ ref bytes (past : History),
      .accessed h (.read ref bytes) :: past <:+ hist → past.lastWrite h ref = none →
        s.region.committed? ref = some bytes) ∧
      ∃ store, hist.serial s.region.wordSize = some store ∧
        ∀ ref bytes, s.region.committed? ref = some bytes → store ref = bytes := by
  have hrec := (Recorded.created hcreate).run operations horderly
  rw [hrecord, hrun] at hrec
  constructor
  · intro h hcommit ref bytes past hsuffix hunwritten
    cases ho : s.open? h with
    | none =>
      rw [finish, ho] at hcommit
      cases hcommit
    | some t =>
      rw [finish_of_open ho] at hcommit
      have hboth := Option.some.inj hcommit
      rw [Bool.and_eq_true] at hboth
      exact committed?_of_read hrec.sound hrec.tracks hfew ho hboth.2 hsuffix hunwritten
  · refine ⟨_, hrec.serializes hfew, fun ref bytes hbytes => ?_⟩
    exact (hrec.tracks.represents.committed?_eq hbytes).symm

/-- A transaction reads a word that another one has claimed, and writes elsewhere. -/
theorem run_serializable_observed_read :
    ∃ start s hist, create { size := 16, align := 8 } = .ok start ∧
      (start.run [.begin false, .begin false, .read 0 Region.start 8, .read 1 Region.start 8,
        .write 1 (Region.start.advance 8) [1, 2, 3, 4, 5, 6, 7, 8]]).2 = s ∧
      start.record [] [.begin false, .begin false, .read 0 Region.start 8, .read 1 Region.start 8,
        .write 1 (Region.start.advance 8) [1, 2, 3, 4, 5, 6, 7, 8]] = hist ∧
      (s.finish 1).1 = some true ∧
      s.region.committed? ⟨0, 0⟩ = some (List.replicate 8 0) ∧
      ∃ store, hist.serial s.region.wordSize = some store ∧
        ∀ ref bytes, s.region.committed? ref = some bytes → store ref = bytes := by
  refine ⟨_, _, _, rfl, rfl, rfl, by decide +kernel, ?_⟩
  have hboth := @run_serializable { size := 16, align := 8 } _ _ rfl
    [.begin false, .begin false, .read 0 Region.start 8, .read 1 Region.start 8,
      .write 1 (Region.start.advance 8) [1, 2, 3, 4, 5, 6, 7, 8]]
    ⟨trivial, trivial, trivial, trivial, trivial, trivial⟩ rfl _ rfl
    (.of_length (by decide +kernel))
  exact ⟨hboth.1 1 (by decide +kernel) ⟨0, 0⟩ _
    [.accessed 0 (.read ⟨0, 0⟩ (List.replicate 8 0)), .began 1, .began 0]
    ⟨[.accessed 1 (.write ⟨0, 1⟩ [1, 2, 3, 4, 5, 6, 7, 8])], rfl⟩ rfl, hboth.2⟩

end Session

end TransactionalMemory
