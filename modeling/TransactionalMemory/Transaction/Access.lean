import TransactionalMemory.Transaction.Basic

/-! # Operations of a transaction

    Reading, writing, allocating and freeing. A range must lie inside one
    segment and consist of whole words; it is accessed word by word in
    ascending order, and the first word in conflict ends the access.

    Every failure but running out of memory dooms the transaction, and a doomed
    transaction refuses every operation. -/

namespace TransactionalMemory

/-- What an operation returns and leaves behind. -/
structure Outcome (α : Type) where
  value : Except Failure α
  transaction : Transaction
  region : Region

namespace Transaction

/-- The operation fails and dooms the transaction. -/
def fail {α : Type} (t : Transaction) (r : Region) (failure : Failure) : Outcome α :=
  ⟨.error failure, t.doom, r⟩

/-- The operation is refused because the transaction is doomed. -/
def refuse {α : Type} (t : Transaction) (r : Region) : Outcome α := ⟨.error .doomed, t, r⟩

/-! ## Resolving an address -/

/-- The segment of a slot, if the transaction may use it. Read-only transactions
    also use segments that have been freed and not released. -/
def reach (t : Transaction) (r : Region) (a : Address) (slot : Nat) : Except Failure Nat :=
  match r.table.lookup slot with
  | .live n => .ok n
  | .freeing n =>
    if t.isReadOnly then .ok n
    else if slot ∈ t.freed then .error (.invalidAddress a)
    else .error (.conflict a)
  | .retired n => if t.isReadOnly then .ok n else .error (.invalidAddress a)
  | .vacant => .error (.invalidAddress a)

/-- Whether `length` bytes from `offset` on are whole words, at least one, of a
    segment of `size` bytes. -/
def inBounds (wordSize size offset length : Nat) : Bool :=
  length != 0 && length % wordSize == 0 && offset % wordSize == 0 && offset + length ≤ size

/-- The segment and the index of the first word of a range. -/
def resolve (t : Transaction) (r : Region) (a : Address) (length : Nat) :
    Except Failure WordRef :=
  match a.slot? with
  | none => .error (.invalidAddress a)
  | some slot =>
    match t.reach r a slot with
    | .error failure => .error failure
    | .ok n =>
      if inBounds r.wordSize ((r.segment? n).elim 0 Segment.size) a.offset length then
        .ok ⟨n, a.offset / r.wordSize⟩
      else .error (.misaligned a length)

/-! ## Passing over a range -/

def log (t : Transaction) (ref : WordRef) : Grant → Transaction
  | .claimed => { t with touched := ref :: t.touched }
  | .owned => t
  | .observed seq => { t with observed := ⟨ref, seq⟩ :: t.observed }

/-- What a pass over the words of one segment returns and leaves behind. The
    result is the index of a word if the pass ended there in conflict. -/
structure Pass (α : Type) where
  /-- The result. -/
  value : Except Nat α
  transaction : Transaction
  segment : Segment

/-- Reads `count` words from `first` on, and puts their bytes behind those read so far. -/
def readWords (t : Transaction) (s : Segment) (n : Nat) :
    (first count : Nat) → (soFar : Array UInt8) → Pass (List UInt8)
  | _, 0, soFar => ⟨.ok soFar.toList, t, s⟩
  | w, count + 1, soFar =>
    match s.readWord t.id w with
    | (none, s) => ⟨.error w, t, s⟩
    | (some (grant, bytes), s) =>
      readWords (t.log ⟨n, w⟩ grant) s n (w + 1) count (soFar ++ bytes)

/-- Writes `count` words from `first` on. -/
def writeWords (t : Transaction) (s : Segment) (n wordSize : Nat) :
    (first count : Nat) → List UInt8 → Pass Unit
  | _, 0, _ => ⟨.ok (), t, s⟩
  | w, count + 1, bytes =>
    match s.writeWord t.id w (bytes.take wordSize) with
    | (none, s) => ⟨.error w, t, s⟩
    | (some grant, s) =>
      writeWords (t.log ⟨n, w⟩ grant) s n wordSize (w + 1) count (bytes.drop wordSize)

/-- The committed values of `count` words from `first` on. -/
def committedWords (s : Segment) (first count : Nat) : List UInt8 :=
  (List.range' first count).flatMap s.committedBytes

/-- What a pass means for the range at `a`, whose first word is `first`: a
    conflict dooms the transaction and is reported at the address of its word. -/
def ofPass {α : Type} (r : Region) (a : Address) (first : WordRef) (pass : Pass α) : Outcome α :=
  let r := r.updateSegment first.segment fun _ => pass.segment
  match pass.value with
  | .ok value => ⟨.ok value, pass.transaction, r⟩
  | .error w =>
    pass.transaction.fail r (.conflict (a.advance ((w - first.word) * r.wordSize)))

/-! ## Operations -/

/-- Gives up on the transaction. Nothing is undone before it ends. -/
def abort (t : Transaction) : Transaction := t.doom

/-- Reads `length` bytes at an address. -/
def read (t : Transaction) (r : Region) (a : Address) (length : Nat) : Outcome (List UInt8) :=
  if t.doomed then t.refuse r
  else
    match t.resolve r a length with
    | .error failure => t.fail r failure
    | .ok first =>
      match r.segment? first.segment with
      | none => t.fail r (.invalidAddress a)
      | some s =>
        let count := length / r.wordSize
        if t.isReadOnly then ⟨.ok (committedWords s first.word count), t, r⟩
        else ofPass r a first (t.readWords s first.segment first.word count #[])

/-- Writes bytes at an address. Nobody else sees them before the transaction commits. -/
def write (t : Transaction) (r : Region) (a : Address) (bytes : List UInt8) : Outcome Unit :=
  if t.doomed then t.refuse r
  else if t.isReadOnly then t.fail r .readOnly
  else
    match t.resolve r a bytes.length with
    | .error failure => t.fail r failure
    | .ok first =>
      match r.segment? first.segment with
      | none => t.fail r (.invalidAddress a)
      | some s =>
        let count := bytes.length / r.wordSize
        ofPass r a first (t.writeWords s first.segment r.wordSize first.word count bytes)

/-- Allocates a segment of zeros and returns the address of its first byte, if
    there is `memory` for its buffers. The segment is given up again if the
    transaction does not commit. Running out of memory leaves the transaction as
    it was. -/
def alloc (t : Transaction) (r : Region) (size : Nat) (memory : Bool) : Outcome Address :=
  if t.doomed then t.refuse r
  else if t.isReadOnly then t.fail r .readOnly
  else if size = 0 ∨ size % r.wordSize ≠ 0 then t.fail r (.invalidLayout size r.wordSize)
  else
    match r.tryAllocate size memory with
    | (none, r) => ⟨.error .outOfMemory, t, r⟩
    | (some slot, r) =>
      ⟨.ok (.ofParts slot 0), { t with allocated := slot :: t.allocated }, r⟩

/-- The slot whose segment starts at the address, unless it is the permanent one. -/
def freeable? (a : Address) : Option Nat :=
  match a.slot? with
  | none => none
  | some slot => if slot ≠ Region.permanentSlot ∧ a.offset = 0 then some slot else none

/-- Frees the segment that starts at an address. Other read-write transactions
    cannot use it from now on; it is back in use if the transaction does not
    commit. -/
def free (t : Transaction) (r : Region) (a : Address) : Outcome Unit :=
  if t.doomed then t.refuse r
  else if t.isReadOnly then t.fail r .readOnly
  else
    match freeable? a with
    | none => t.fail r (.invalidAddress a)
    | some slot =>
      match r.table.lookup slot with
      | .live _ =>
        ⟨.ok (), { t with freed := slot :: t.freed }, { r with table := r.table.mark slot }⟩
      | .freeing _ =>
        if slot ∈ t.freed then t.fail r (.invalidAddress a) else t.fail r (.conflict a)
      | .retired _ | .vacant => t.fail r (.invalidAddress a)

end Transaction

end TransactionalMemory
