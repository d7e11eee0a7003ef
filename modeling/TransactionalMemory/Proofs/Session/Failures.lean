import TransactionalMemory.Proofs.Session.Conflicts
import TransactionalMemory.Proofs.Session.Dooming
import TransactionalMemory.Proofs.Session.FreeConflicts
import TransactionalMemory.Proofs.Session.Logs
import TransactionalMemory.Proofs.Session.Likeness

/-! # What a failed operation leaves behind

    A transaction reads, writes, allocates or frees, and fails. Then:

    1. Want of memory leaves the transaction as it was, not doomed, and the region
       like it was: the slot numbers to come are the same, in the same order.
    2. Every other failure dooms the transaction.
    3. If no word was in conflict, nothing else has changed, in the transaction
       or in the region.
    4. If a word was in conflict, the words before it in the range are done for
       the transaction and noted in its logs, and nothing else has changed.

    A doomed transaction is refused whatever it tries, without any change, for as
    long as it is open, and then it does not commit. -/

namespace TransactionalMemory

namespace Operation

def address? : Operation → Option Address
  | .read _ a _ | .write _ a _ | .free _ a => some a
  | .begin _ | .alloc .. | .abort _ | .finish _ | .abandon _ | .collect => none

def length : Operation → Nat
  | .read _ _ length => length
  | .write _ _ bytes => bytes.length
  | .begin _ | .alloc .. | .free .. | .abort _ | .finish _ | .abandon _ | .collect => 0

/-- Whether a word with this control is barred to the operation of a transaction. -/
def Bars (operation : Operation) (id : TransactionId) (c : Control) : Prop :=
  match operation with
  | .read .. => c.WrittenByOther id
  | .write .. => c.HeldByOther id
  | .begin _ | .alloc .. | .free .. | .abort _ | .finish _ | .abandon _ | .collect => False

/-- What the operation of a transaction makes of a word in its range. -/
def change (operation : Operation) (id : TransactionId) (wordSize w : Nat) (x : Stored) : Stored :=
  match operation with
  | .read .. => x.readBy id
  | .write _ a bytes => x.writtenBy id (Transaction.part wordSize (a.offset / wordSize) bytes w)
  | .begin _ | .alloc .. | .free .. | .abort _ | .finish _ | .abandon _ | .collect => x

end Operation

namespace Session

variable {s s' start : Session} {h : Handle} {t t' : Transaction} {operation : Operation}
  {failure : Failure}

/-! ## One operation -/

/-- The segment at the address of the operation is being freed, and not by its transaction. -/
def MeetsFree (s : Session) (t : Transaction) (operation : Operation) : Prop :=
  ∃ a i n, operation.address? = some a ∧ a.slot? = some i ∧
    s.region.table.lookup i = .freeing n ∧ i ∉ t.freed

/-- The operation has met a word that is barred to it, at address `b`. Those
    before it in the range are done, and its transaction is doomed. -/
structure StopsAt (s s' : Session) (h : Handle) (t : Transaction) (operation : Operation)
    (b a : Address) (i n : Nat) (seg : Segment) (k : Nat) : Prop where
  address : operation.address? = some a
  slot : a.slot? = some i
  live : s.region.table.lookup i = .live n
  segment : s.region.segment? n = some seg
  inside : Transaction.inBounds s.region.wordSize seg.size a.offset operation.length = true
  within : k < operation.length / s.region.wordSize
  reported : b = a.advance (k * s.region.wordSize)
  barred : operation.Bars t.id (seg.control (a.offset / s.region.wordSize + k))
  clear : ∀ j < k, ¬ operation.Bars t.id (seg.control (a.offset / s.region.wordSize + j))
  done : s.DoneUpTo s' h t seg ⟨n, a.offset / s.region.wordSize⟩
    (operation.change t.id s.region.wordSize) k true

/-- What a failed operation of transaction `h` leaves behind. -/
structure Contained (s s' : Session) (h : Handle) (t : Transaction) (operation : Operation)
    (failure : Failure) : Prop where
  scarce : failure = .outOfMemory → t.doomed = false ∧
    ∃ r', s.region.Alike r' ∧ s' = s.put h (some t) r'
  dooms : failure ≠ .outOfMemory → ∃ t', s'.open? h = some t' ∧ t'.doomed = true
  /-- Nothing but the flag differs, unless a word is in conflict. -/
  flagged : failure ≠ .outOfMemory → (∀ b, failure ≠ .conflict b) ∨ s.MeetsFree t operation →
    s' = s.put h (some t.doom) s.region
  stopped : ∀ b, failure = .conflict b → ¬ s.MeetsFree t operation →
    ∃ a i n seg k, s.StopsAt s' h t operation b a i n seg k

/-- A failure that does no more than doom the transaction. -/
theorem contained_of_flag (ho : s.open? h = some t) (hother : failure ≠ .outOfMemory)
    (hfree : ∀ b, failure = .conflict b → s.MeetsFree t operation) :
    s.Contained (s.put h (some t.doom) s.region) h t operation failure where
  scarce := fun hscarce => absurd hscarce hother
  dooms := fun _ => ⟨t.doom, open?_put_self ho, rfl⟩
  flagged := fun _ _ => rfl
  stopped := fun b hb hnone => absurd (hfree b hb) hnone

/-- A doomed transaction that is refused is as doomed as it was. -/
theorem contained_of_refused (ho : s.open? h = some t) (hdoomed : t.doomed = true) :
    s.Contained (s.put h (some t) s.region) h t operation .doomed := by
  have hsame : t.doom = t := by
    unfold Transaction.doom
    rw [← hdoomed]
  have hflag : s.Contained (s.put h (some t.doom) s.region) h t operation .doomed :=
    contained_of_flag ho nofun nofun
  rwa [hsame] at hflag

/-- An access that fails at a word of its range. -/
theorem contained_of_covers {α : Type} (operation : Operation) {a : Address} {first : WordRef}
    {seg : Segment} {slot k : Nat} {o : Outcome α} (ho : s.open? h = some t)
    (hrw : t.isReadOnly = false)
    (hseg : s.region.segment? first.segment = some seg) (haddress : operation.address? = some a)
    (hresolved : t.Resolved s.region a operation.length slot first)
    (hcovers : t.Covers s.region a first seg (operation.length / s.region.wordSize)
      (operation.Bars t.id) (operation.change t.id s.region.wordSize) o k)
    (hfailed : o.value = .error failure) :
    s.Contained (s.put h (some o.transaction) o.region) h t operation failure := by
  have hlive := Transaction.live_of_resolved hrw hresolved
  have hnofree : ¬ s.MeetsFree t operation := by
    rintro ⟨b, i, n, hb, hi, hfreeing, -⟩
    cases haddress.symm.trans hb
    cases hresolved.slot_eq.symm.trans hi
    rw [hlive] at hfreeing
    cases hfreeing
  have hfirst : first = ⟨first.segment, a.offset / s.region.wordSize⟩ := by
    rw [← hresolved.word_eq]
  -- It has not reached the end of the range.
  have hlt : k < operation.length / s.region.wordSize := by
    apply Nat.lt_of_le_of_ne hcovers.le
    intro hend
    obtain ⟨⟨value, hvalue⟩, -⟩ := hcovers.success hend
    rw [hvalue] at hfailed
    cases hfailed
  obtain ⟨hbarred, hvalue, htransaction⟩ := hcovers.conflict hlt
  rw [hvalue] at hfailed
  cases hfailed
  constructor
  · intro hscarce
    cases hscarce
  · intro _
    exact ⟨o.transaction, open?_put_self ho, by rw [htransaction]; rfl⟩
  · rintro - (hquiet | hfree)
    · exact absurd rfl (hquiet _)
    · exact absurd hfree hnofree
  · intro b hb _
    cases hb
    refine ⟨a, slot, first.segment, seg, k, ?_⟩
    constructor
    · exact haddress
    · exact hresolved.slot_eq
    · exact hlive
    · exact hseg
    · simpa only [hseg, Option.elim_some] using hresolved.inside
    · exact hlt
    · rfl
    · rw [← hresolved.word_eq]
      exact hbarred
    · intro j hj
      rw [← hresolved.word_eq]
      exact hcovers.clear (first.word + j) (by omega) (by omega)
    · rw [← hfirst]
      refine ⟨o.region, hcovers.region, ?_⟩
      rw [htransaction]
      rfl

/-- Whoever cannot follow an address meets a free, or is not in conflict. -/
theorem meetsFree_of_resolve {a b : Address} {length : Nat} (haddress : operation.address? = some a)
    (hresolve : t.resolve s.region a length = .error (.conflict b)) : s.MeetsFree t operation := by
  obtain ⟨-, -, slot, n, hslot, hfreeing, hunfreed⟩ := Transaction.resolve_conflict hresolve
  exact ⟨a, slot, n, haddress, hslot, hfreeing, hunfreed⟩

theorem contained_read (hs : s.Steady) (ho : s.open? h = some t) {a : Address} {length : Nat}
    (hfailed : (t.read s.region a length).value = .error failure) :
    s.Contained (s.put h (some (t.read s.region a length).transaction)
      (t.read s.region a length).region) h t (.read h a length) failure := by
  cases t.read_cases s.region a length with
  | refused doomed heq =>
    rw [heq] at hfailed ⊢
    cases hfailed
    exact contained_of_refused ho doomed
  | failed undoomed why heq =>
    rw [heq] at hfailed ⊢
    cases hfailed
    rcases why with hresolve | ⟨-, -, -, rfl⟩
    · apply contained_of_flag ho (Transaction.resolve_ne_outOfMemory hresolve)
      rintro b rfl
      exact meetsFree_of_resolve rfl hresolve
    · exact contained_of_flag ho nofun nofun
  | shared undoomed readOnly resolved found heq =>
    rw [heq] at hfailed
    cases hfailed
  | passed undoomed readWrite resolved found heq =>
    obtain ⟨k, hcovers⟩ := Transaction.read_covers hs.shaped hs.attributed undoomed readWrite found
      resolved
    exact contained_of_covers (.read h a length) ho readWrite found rfl resolved hcovers hfailed

theorem contained_write (hs : s.Steady) (ho : s.open? h = some t) {a : Address}
    {bytes : List UInt8} (hfailed : (t.write s.region a bytes).value = .error failure) :
    s.Contained (s.put h (some (t.write s.region a bytes).transaction)
      (t.write s.region a bytes).region) h t (.write h a bytes) failure := by
  cases t.write_cases s.region a bytes with
  | refused doomed heq =>
    rw [heq] at hfailed ⊢
    cases hfailed
    exact contained_of_refused ho doomed
  | failed undoomed why heq =>
    rw [heq] at hfailed ⊢
    cases hfailed
    rcases why with ⟨-, rfl⟩ | hresolve | ⟨-, -, -, rfl⟩
    · exact contained_of_flag ho nofun nofun
    · apply contained_of_flag ho (Transaction.resolve_ne_outOfMemory hresolve)
      rintro b rfl
      exact meetsFree_of_resolve rfl hresolve
    · exact contained_of_flag ho nofun nofun
  | passed undoomed readWrite resolved found heq =>
    obtain ⟨k, hcovers⟩ := Transaction.write_covers hs.shaped hs.attributed undoomed readWrite found
      resolved
    rw [resolved.word_eq] at hcovers
    exact contained_of_covers (.write h a bytes) ho readWrite found rfl resolved hcovers hfailed

theorem contained_alloc (ho : s.open? h = some t) {size : Nat} {memory : Bool}
    (hfailed : (t.alloc s.region size memory).value = .error failure) :
    s.Contained (s.put h (some (t.alloc s.region size memory).transaction)
      (t.alloc s.region size memory).region) h t (.alloc h size memory) failure := by
  cases t.alloc_cases s.region size memory with
  | refused doomed heq =>
    rw [heq] at hfailed ⊢
    cases hfailed
    exact contained_of_refused ho doomed
  | failed undoomed why heq =>
    rw [heq] at hfailed ⊢
    cases hfailed
    rcases why with ⟨-, rfl⟩ | ⟨-, -, rfl⟩
    · exact contained_of_flag ho nofun nofun
    · exact contained_of_flag ho nofun nofun
  | @scarce r' undoomed readWrite attempt heq =>
    rw [heq] at hfailed ⊢
    cases hfailed
    constructor
    · intro _
      exact ⟨undoomed, r', .of_failed attempt, rfl⟩
    · intro hother
      exact absurd rfl hother
    · intro hother
      exact absurd rfl hother
    · intro b hb
      cases hb
  | granted undoomed readWrite whole enough found heq =>
    rw [heq] at hfailed
    cases hfailed

theorem contained_free (ho : s.open? h = some t) {a : Address}
    (hfailed : (t.free s.region a).value = .error failure) :
    s.Contained (s.put h (some (t.free s.region a).transaction) (t.free s.region a).region) h t
      (.free h a) failure := by
  cases t.free_cases s.region a with
  | refused doomed heq =>
    rw [heq] at hfailed ⊢
    cases hfailed
    exact contained_of_refused ho doomed
  | failed undoomed why heq =>
    rw [heq] at hfailed ⊢
    cases hfailed
    rcases why with ⟨-, rfl⟩ | ⟨-, rfl⟩ | ⟨slot, hslot, ⟨n, hfreeing, rfl⟩ | ⟨-, rfl⟩⟩
    · exact contained_of_flag ho nofun nofun
    · exact contained_of_flag ho nofun nofun
    · -- Only what another transaction frees is in conflict.
      by_cases hown : slot ∈ t.freed
      · rw [if_pos hown]
        exact contained_of_flag ho nofun nofun
      · rw [if_neg hown]
        apply contained_of_flag ho
        · nofun
        · intro b _
          exact ⟨a, slot, n, rfl, Transaction.slot?_of_freeable hslot, hfreeing, hown⟩
    · exact contained_of_flag ho nofun nofun
  | marked undoomed readWrite freeable live heq =>
    rw [heq] at hfailed
    cases hfailed

/-- Whatever operation has failed, it has left behind what it may. -/
theorem contained_step (hs : s.Steady) (ho : s.open? h = some t)
    (huser : operation.user? = some h)
    (hfailed : (s.step operation).1.failure? = some failure) :
    s.Contained (s.step operation).2 h t operation failure := by
  cases operation with
  | read k a length =>
    cases huser
    simp only [step, read, access_of_open _ ho] at hfailed ⊢
    exact contained_read hs ho (Option.some.inj (Answer.failure?_bytes.1 hfailed))
  | write k a bytes =>
    cases huser
    simp only [step, write, access_of_open _ ho] at hfailed ⊢
    exact contained_write hs ho (Option.some.inj (Answer.failure?_done.1 hfailed))
  | alloc k size memory =>
    cases huser
    simp only [step, alloc, access_of_open _ ho] at hfailed ⊢
    exact contained_alloc ho (Option.some.inj (Answer.failure?_allocated.1 hfailed))
  | free k a =>
    cases huser
    simp only [step, free, access_of_open _ ho] at hfailed ⊢
    exact contained_free ho (Option.some.inj (Answer.failure?_done.1 hfailed))
  | begin _ => cases huser
  | abort _ => cases huser
  | finish _ => cases huser
  | abandon _ => cases huser
  | collect => cases huser

/-! ## From then on -/

/-- Whatever transaction `h` tries is refused and changes nothing, and it will
    not commit. -/
structure Condemned (s : Session) (h : Handle) : Prop where
  refused : ∀ operation, operation.user? = some h →
    (s.step operation).1.failure? = some .doomed ∧ (s.step operation).2 = s
  ends : (s.finish h).1 = some false

/-- A doomed transaction is condemned. -/
theorem condemned_of_doomed (ho : s.open? h = some t) (hdoomed : t.doomed = true) :
    s.Condemned h := by
  constructor
  · intro operation huser
    cases operation with
    | read k a length =>
      cases huser
      have hrefused : t.read s.region a length = t.refuse s.region := if_pos hdoomed
      simp only [step, read, access_of_open _ ho, hrefused]
      exact ⟨rfl, put_self ho⟩
    | write k a bytes =>
      cases huser
      have hrefused : t.write s.region a bytes = t.refuse s.region := if_pos hdoomed
      simp only [step, write, access_of_open _ ho, hrefused]
      exact ⟨rfl, put_self ho⟩
    | alloc k size memory =>
      cases huser
      have hrefused : t.alloc s.region size memory = t.refuse s.region := if_pos hdoomed
      simp only [step, alloc, access_of_open _ ho, hrefused]
      exact ⟨rfl, put_self ho⟩
    | free k a =>
      cases huser
      have hrefused : t.free s.region a = t.refuse s.region := if_pos hdoomed
      simp only [step, free, access_of_open _ ho, hrefused]
      exact ⟨rfl, put_self ho⟩
    | begin _ => cases huser
    | abort _ => cases huser
    | finish _ => cases huser
    | abandon _ => cases huser
    | collect => cases huser
  · rw [finish_of_open ho, hdoomed]
    rfl

/-- A transaction that is doomed stays so for as long as it is open. -/
theorem condemned_run (hs : s.Steady) (ho : s.open? h = some t) (hdoomed : t.doomed = true)
    (operations : List Operation) (ho' : (s.run operations).2.open? h = some t') :
    (s.run operations).2.Condemned h := by
  have heffects : Effects False s _ _ := effects_record hs operations nofun
  have hcontinues := continues_effects heffects ho ho'
  exact condemned_of_doomed ho' (hcontinues.doomed hdoomed)

/-! ## After a run -/

/-- After every run, an operation of an open transaction that fails leaves behind
    no more than it may. Unless it failed for want of memory, the transaction is
    condemned from then on, whatever is done in between. -/
theorem run_failures {settings : Settings} (hcreate : create settings = .ok start)
    (operations : List Operation) (hs : (start.run operations).2 = s)
    (ho : s.open? h = some t) (huser : operation.user? = some h)
    (hfailed : (s.step operation).1.failure? = some failure) :
    s.Contained (s.step operation).2 h t operation failure ∧
      (failure ≠ .outOfMemory → ∀ later t',
        ((s.step operation).2.run later).2.open? h = some t' →
          ((s.step operation).2.run later).2.Condemned h) := by
  have hsteady := (steady_of_create hcreate).run operations
  rw [hs] at hsteady
  have hcontained := contained_step hsteady ho huser hfailed
  constructor
  · exact hcontained
  · intro hother later t' ho'
    obtain ⟨u, hu, hdoomed⟩ := hcontained.dooms hother
    have hsteady' := hsteady.run [operation]
    exact condemned_run hsteady' hu hdoomed later ho'

/-- One transaction has written the second of three words. Another one that
    writes the first two fails there, and stays doomed when the first one has
    ended. -/
theorem run_failures_second_word :
    ∃ start s t, create { size := 24, align := 8 } = .ok start ∧
      (start.run [.begin false, .begin false,
        .write 0 (Region.start.advance 8) (List.replicate 8 1)]).2 = s ∧
      s.open? 1 = some t ∧
      s.Contained (s.write 1 Region.start (List.replicate 16 2)).2 1 t
        (.write 1 Region.start (List.replicate 16 2)) (.conflict (Region.start.advance 8)) ∧
      ((s.write 1 Region.start (List.replicate 16 2)).2.run [.finish 0]).2.Condemned 1 := by
  refine ⟨_, _, _, rfl, rfl, rfl, ?_⟩
  have hall := @run_failures _ _ 1 _ (.write 1 Region.start (List.replicate 16 2))
    (.conflict (Region.start.advance 8)) { size := 24, align := 8 } rfl
    [.begin false, .begin false, .write 0 (Region.start.advance 8) (List.replicate 8 1)]
    rfl rfl rfl (by decide +kernel)
  exact ⟨hall.1, hall.2 nofun [.finish 0] _ rfl⟩

end Session

end TransactionalMemory
