import TransactionalMemory.Proofs.Segment.Separation
import TransactionalMemory.Transaction.Access

/-! # Passes over different words do not touch each other

    A pass over a range looks at the controls and the copies of its own words
    and at nothing else of the segment, and it changes nothing else. So what it
    comes to can be told as a list of edits of these words, and the list stays
    the same whatever is done to other words before.

    The proof goes from the row of lanes up to the pass:

    1. Edits of different words commute, for their lanes are different.
    2. An access to a word finds the same word after edits of other words, and
       edits the word in the same way.
    3. If two accesses are of this kind, then so is the one after the other. A
       pass is a sequence of them, which may stop early. -/

namespace TransactionalMemory

namespace Lane

variable {first first' : Nat} {lanes lanes' : List Lane} {i : Nat}

/-- A lane outside the part that is overwritten can be set before or after. -/
theorem overwrite_setIfInBounds (row : Array Lane) (lane : Lane)
    (h : i < first ∨ first + lanes.length ≤ i) :
    overwrite (row.setIfInBounds i lane) first lanes =
      (overwrite row first lanes).setIfInBounds i lane := by
  induction lanes generalizing row first with
  | nil => rfl
  | cons next rest ih =>
    rw [List.length_cons] at h
    have hne : i ≠ first := by omega
    have hrest : i < first + 1 ∨ first + 1 + rest.length ≤ i := by omega
    rw [overwrite, overwrite, Array.setIfInBounds_comm lane next hne, ih _ hrest]

/-- Parts of a row that have no lane in common can be overwritten in either order. -/
theorem overwrite_comm (row : Array Lane)
    (h : first + lanes.length ≤ first' ∨ first' + lanes'.length ≤ first) :
    overwrite (overwrite row first lanes) first' lanes' =
      overwrite (overwrite row first' lanes') first lanes := by
  induction lanes generalizing row first with
  | nil => rfl
  | cons lane rest ih =>
    rw [List.length_cons] at h
    have hrest : first + 1 + rest.length ≤ first' ∨ first' + lanes'.length ≤ first + 1 := by omega
    have houtside : first < first' ∨ first' + lanes'.length ≤ first := by omega
    rw [overwrite, overwrite, ih _ hrest, overwrite_setIfInBounds row lane houtside]

end Lane

namespace Segment

variable {s : Segment} {w v : Nat} {e f : Edit} {es fs : List Edit}

/-! ## Edits of different words -/

/-- Different words have no lane in common. -/
theorem firstLane_apart (s : Segment) (h : w ≠ v) :
    s.firstLane w + s.lanesPerWord ≤ s.firstLane v ∨
      s.firstLane v + s.lanesPerWord ≤ s.firstLane w := by
  unfold firstLane
  rcases Nat.lt_or_gt_of_ne h with hlt | hlt
  · left
    rw [← Nat.succ_mul]
    exact Nat.mul_le_mul_right s.lanesPerWord hlt
  · right
    rw [← Nat.succ_mul]
    exact Nat.mul_le_mul_right s.lanesPerWord hlt

/-- Different words can be stored in either order. -/
theorem store_comm (s : Segment) (c d : Copy) (bytes bytes' : List UInt8) (h : w ≠ v) :
    (s.store c w bytes).store d v bytes' = (s.store d v bytes').store c w bytes := by
  have hcommute : ∀ row : Array Lane,
      Lane.overwrite (Lane.overwrite row (s.firstLane w)
          ((Lane.ofBytes bytes).take s.lanesPerWord)) (s.firstLane v)
        ((Lane.ofBytes bytes').take s.lanesPerWord) =
      Lane.overwrite (Lane.overwrite row (s.firstLane v)
          ((Lane.ofBytes bytes').take s.lanesPerWord)) (s.firstLane w)
        ((Lane.ofBytes bytes).take s.lanesPerWord) := by
    intro row
    have hapart := s.firstLane_apart h
    have hshort := List.length_take_le s.lanesPerWord (Lane.ofBytes bytes)
    have hshort' := List.length_take_le s.lanesPerWord (Lane.ofBytes bytes')
    apply Lane.overwrite_comm
    omega
  cases c with
  | a =>
    cases d with
    | a => exact congrArg (fun row => { s with copyA := row }) (hcommute s.copyA)
    | b => rfl
  | b =>
    cases d with
    | a => rfl
    | b => exact congrArg (fun row => { s with copyB := row }) (hcommute s.copyB)

/-- Edits of different words commute. -/
theorem edit_comm (s : Segment) (h : e.word ≠ f.word) :
    (s.edit e).edit f = (s.edit f).edit e := by
  cases e with
  | store c w bytes =>
    cases f with
    | store d v bytes' => exact s.store_comm c d bytes bytes' h
    | control v control => cases c <;> rfl
  | control w control =>
    cases f with
    | store d v bytes => cases d <;> rfl
    | control v control' =>
      exact congrArg (fun controls => { s with controls })
        (Array.setIfInBounds_comm control.pack control'.pack h)

/-- One edit can be put off until edits of other words are done. -/
theorem edit_edited_comm (s : Segment) (h : ∀ f ∈ fs, e.word ≠ f.word) :
    (s.edit e).edited fs = (s.edited fs).edit e := by
  induction fs generalizing s with
  | nil => rfl
  | cons f rest ih =>
    obtain ⟨hfirst, hrest⟩ := List.forall_mem_cons.1 h
    rw [edited_cons, edited_cons, s.edit_comm hfirst, ih (s.edit f) hrest]

/-- Lists of edits that have no word in common commute. -/
theorem edited_comm (s : Segment) (h : ∀ e ∈ es, ∀ f ∈ fs, e.word ≠ f.word) :
    (s.edited es).edited fs = (s.edited fs).edited es := by
  induction es generalizing s with
  | nil => rfl
  | cons e rest ih =>
    obtain ⟨hfirst, hrest⟩ := List.forall_mem_cons.1 h
    rw [edited_cons, edited_cons, ih (s.edit e) hrest, s.edit_edited_comm hfirst]

theorem edited_append (s : Segment) (es fs : List Edit) :
    s.edited (es ++ fs) = (s.edited es).edited fs := List.foldl_append

/-- Edits of other words leave a word as it is. -/
theorem word_edited (s : Segment) (h : ∀ f ∈ fs, f.word ≠ w) :
    (s.edited fs).control w = s.control w ∧ ∀ c, (s.edited fs).load c w = s.load c w := by
  induction fs generalizing s with
  | nil => exact ⟨rfl, fun _ => rfl⟩
  | cons f rest ih =>
    obtain ⟨hfirst, hrest⟩ := List.forall_mem_cons.1 h
    obtain ⟨hcontrol, hload⟩ := ih (s.edit f) hrest
    rw [edited_cons, hcontrol]
    cases f with
    | store d v bytes =>
      constructor
      · exact s.control_store d v w bytes
      · intro c
        rw [hload]
        exact load_store_of_word_ne s d c hfirst bytes
    | control v control =>
      constructor
      · exact s.control_setControl_ne control hfirst
      · intro c
        rw [hload]
        exact s.load_setControl v w control c

/-! ## Accesses that keep to some words -/

/-- What an access to a segment comes to depends on the words of `inside` and on
    no others, and it edits these words only. -/
def Confined {α : Type} (s : Segment) (inside : Nat → Prop)
    (access : Segment → α × Segment) : Prop :=
  ∃ es, (∀ e ∈ es, inside e.word) ∧ ∀ fs, (∀ f ∈ fs, ¬ inside f.word) →
    access (s.edited fs) = ((access s).1, (s.edited fs).edited es)

namespace Confined

variable {α β : Type} {inside inside' : Nat → Prop}

/-- The words may be more. -/
theorem mono {access : Segment → α × Segment} (h : s.Confined inside access)
    (hmore : ∀ w, inside w → inside' w) : s.Confined inside' access := by
  obtain ⟨es, hinside, hsame⟩ := h
  refine ⟨es, fun e he => hmore _ (hinside e he), ?_⟩
  intro fs houtside
  apply hsame
  intro f hf hin
  exact houtside f hf (hmore _ hin)

/-- No access at all. -/
theorem value (value : α) : s.Confined inside fun s => (value, s) :=
  ⟨[], List.forall_mem_nil _, fun _ _ => rfl⟩

/-- An access that returns the same, and makes the same edits, wherever the
    control and the copies of its word are the same. -/
theorem of_word {access : Segment → α × Segment} (value : α) (es : List Edit)
    (hword : ∀ e ∈ es, e.word = w)
    (h : ∀ s', s'.control w = s.control w → (∀ c, s'.load c w = s.load c w) →
      access s' = (value, s'.edited es)) : s.Confined (· = w) access := by
  refine ⟨es, hword, ?_⟩
  intro fs houtside
  obtain ⟨hcontrol, hload⟩ := s.word_edited houtside
  rw [h _ hcontrol hload, h s rfl fun _ => rfl]

/-- One access, and then another one that depends on what it has returned. -/
theorem andThen {access : Segment → α × Segment} {next : α → Segment → β × Segment}
    (hfirst : s.Confined inside access)
    (hnext : (access s).2.Confined inside (next (access s).1)) :
    s.Confined inside fun s => next (access s).1 (access s).2 := by
  obtain ⟨es, hes, hsame⟩ := hfirst
  obtain ⟨es', hes', hsame'⟩ := hnext
  have hself : (access s).2 = s.edited es := by
    have hnone := hsame [] (List.forall_mem_nil _)
    exact congrArg Prod.snd hnone
  refine ⟨es ++ es', ?_, ?_⟩
  · intro e he
    rcases List.mem_append.1 he with hmem | hmem
    · exact hes e hmem
    · exact hes' e hmem
  · intro fs houtside
    -- The edits of the first access can be done before those of other words.
    have hcommute : (s.edited fs).edited es = (s.edited es).edited fs := by
      apply edited_comm
      intro f hf e he heq
      exact houtside f hf (heq ▸ hes e he)
    rw [hself] at hsame'
    dsimp only
    rw [hsame fs houtside, hself]
    dsimp only
    rw [hcommute, hsame' fs houtside, edited_append, hcommute]

end Confined

/-- A read of a word depends on this word, and edits it only. -/
theorem confined_readWord (s : Segment) (id : TransactionId) (w : Nat) :
    s.Confined (· = w) fun s => s.readWord id w := by
  cases hwritten : (s.control w).written with
  | true =>
    cases hown : (s.control w).ownedBy id with
    | true =>
      apply Confined.of_word (some (.owned, s.load (s.control w).scratch w)) []
        (List.forall_mem_nil _)
      intro s' hcontrol hload
      simp [readWord, hcontrol, hload, hwritten, hown]
    | false =>
      apply Confined.of_word none [] (List.forall_mem_nil _)
      intro s' hcontrol hload
      simp [readWord, hcontrol, hwritten, hown]
  | false =>
    cases haccessor : (s.control w).accessor with
    | none =>
      apply Confined.of_word (some (.claimed, s.load (s.control w).valid w))
        [.control w ((s.control w).claimedBy id)] (by simp [Edit.word])
      intro s' hcontrol hload
      simp [readWord, hcontrol, hload, hwritten, haccessor, edit]
    | some owner =>
      apply Confined.of_word
        (some (if owner = id then .owned else .observed (s.control w).seq,
          s.load (s.control w).valid w)) [] (List.forall_mem_nil _)
      intro s' hcontrol hload
      simp [readWord, hcontrol, hload, hwritten, haccessor]

/-- A write depends on its word, and edits it only. -/
theorem confined_writeWord (s : Segment) (id : TransactionId) (w : Nat) (bytes : List UInt8) :
    s.Confined (· = w) fun s => s.writeWord id w bytes := by
  -- A first write stores the control, and then the bytes in the scratch copy.
  have hbegins : ∀ e ∈ [Edit.control w ((s.control w).writtenBy id),
      .store (s.control w).scratch w bytes], e.word = w := by
    simp [Edit.word]
  cases hwritten : (s.control w).written with
  | true =>
    cases hown : (s.control w).ownedBy id with
    | true =>
      apply Confined.of_word (some .owned) [.store (s.control w).scratch w bytes]
        (by simp [Edit.word])
      intro s' hcontrol hload
      simp [writeWord, hcontrol, hwritten, hown, edit]
    | false =>
      apply Confined.of_word none [] (List.forall_mem_nil _)
      intro s' hcontrol hload
      simp [writeWord, hcontrol, hwritten, hown]
  | false =>
    cases haccessor : (s.control w).accessor with
    | none =>
      apply Confined.of_word (some .claimed) _ hbegins
      intro s' hcontrol hload
      simp [writeWord, beginWrite, hcontrol, hwritten, haccessor, edit]
    | some owner =>
      by_cases hown : owner = id
      · apply Confined.of_word (some .owned) _ hbegins
        intro s' hcontrol hload
        simp [writeWord, beginWrite, hcontrol, hwritten, haccessor, hown, edit]
      · apply Confined.of_word none [] (List.forall_mem_nil _)
        intro s' hcontrol hload
        simp [writeWord, hcontrol, hwritten, haccessor, hown]

end Segment

namespace Transaction

open Segment

/-! ## Passes -/

/-- What a pass returns, and the segment that it leaves behind. -/
def Pass.parts {α : Type} (p : Pass α) : (Except Nat α × Transaction) × Segment :=
  ((p.value, p.transaction), p.segment)

def InRange (first count w : Nat) : Prop := first ≤ w ∧ w < first + count

/-- How a pass goes on once its first word was accessed: it stops there in
    conflict, or it goes through the rest with what was found. -/
def onward {α β : Type} (t : Transaction) (first : Nat) (rest : β → Segment → Pass α) :
    Option β → Segment → (Except Nat α × Transaction) × Segment
  | none, s => ((.error first, t), s)
  | some found, s => (rest found s).parts

variable {s : Segment} {first count : Nat}

/-- If the access to the first word and the rest of the pass keep to their words,
    then so does the pass. -/
theorem confined_onward {α β : Type} (t : Transaction) {rest : β → Segment → Pass α}
    {access : Segment → Option β × Segment} (haccess : s.Confined (· = first) access)
    (hrest : ∀ found, (access s).2.Confined (InRange (first + 1) count)
      fun s => (rest found s).parts) :
    s.Confined (InRange first (count + 1))
      fun s => t.onward first rest (access s).1 (access s).2 := by
  apply Confined.andThen
  · apply haccess.mono
    intro w hw
    unfold InRange
    omega
  · cases (access s).1 with
    | none => exact .value (Except.error first, t)
    | some found =>
      apply (hrest found).mono
      intro w hw
      unfold InRange at hw ⊢
      omega

/-- A pass that reads depends on the words of its range, and edits these only. -/
theorem confined_readWords (t : Transaction) (s : Segment) (n first count : Nat)
    (soFar : Array UInt8) :
    s.Confined (InRange first count) fun s => (t.readWords s n first count soFar).parts := by
  induction count generalizing t s first soFar with
  | zero => exact .value (Except.ok soFar.toList, t)
  | succ count ih =>
    have hsplit : (fun s => (t.readWords s n first (count + 1) soFar).parts) = fun s =>
        t.onward first (fun (found : Grant × List UInt8) s =>
          (t.log ⟨n, first⟩ found.1).readWords s n (first + 1) count (soFar ++ found.2))
          (s.readWord t.id first).1 (s.readWord t.id first).2 := by
      funext s
      rw [readWords]
      rcases s.readWord t.id first with ⟨_ | ⟨grant, bytes⟩, s'⟩
      · rfl
      · rfl
    rw [hsplit]
    apply t.confined_onward (s.confined_readWord t.id first)
    intro found
    exact ih ..

/-- And so does a pass that writes. -/
theorem confined_writeWords (t : Transaction) (s : Segment) (n wordSize first count : Nat)
    (bytes : List UInt8) :
    s.Confined (InRange first count)
      fun s => (t.writeWords s n wordSize first count bytes).parts := by
  induction count generalizing t s first bytes with
  | zero => exact .value (Except.ok (), t)
  | succ count ih =>
    have hsplit : (fun s => (t.writeWords s n wordSize first (count + 1) bytes).parts) = fun s =>
        t.onward first (fun grant s => (t.log ⟨n, first⟩ grant).writeWords s n wordSize (first + 1)
          count (bytes.drop wordSize)) (s.writeWord t.id first (bytes.take wordSize)).1
          (s.writeWord t.id first (bytes.take wordSize)).2 := by
      funext s
      rw [writeWords]
      rcases s.writeWord t.id first (bytes.take wordSize) with ⟨_ | grant, s'⟩
      · rfl
      · rfl
    rw [hsplit]
    apply t.confined_onward (s.confined_writeWord t.id first _)
    intro grant
    exact ih ..

/-- The committed values of a range are those of its words. -/
theorem committedWords_edited (s : Segment) {fs : List Edit}
    (houtside : ∀ f ∈ fs, ¬ InRange first count f.word) :
    committedWords (s.edited fs) first count = committedWords s first count := by
  unfold committedWords
  rw [List.flatMap_def, List.flatMap_def]
  apply congrArg List.flatten
  apply List.map_congr_left
  intro w hw
  obtain ⟨hlow, hhigh⟩ := List.mem_range'_1.1 hw
  have hother : ∀ f ∈ fs, f.word ≠ w := by
    rintro f hf rfl
    exact houtside f hf ⟨hlow, hhigh⟩
  obtain ⟨hcontrol, hload⟩ := s.word_edited hother
  rw [committedBytes, committedBytes, hcontrol, hload]

end Transaction

end TransactionalMemory
