import TransactionalMemory.Segment.Basic

/-! # Access to a word

    The rules by which read-write transactions share a word. For a transaction
    `t`, with `u` any other one:

    | pending write | accessor | read by `t`                   | write by `t`             |
    |---------------|----------|-------------------------------|--------------------------|
    | yes           | `t`      | the scratch copy              | overwrites the scratch   |
    | yes           | `u`      | conflict                      | conflict                 |
    | no            | none     | the valid copy, `t` claims it | scratch, `t` claims it   |
    | no            | `t`      | the valid copy                | scratch                  |
    | no            | `u`      | the valid copy, as observed   | conflict                 |

    A read-only transaction reads the valid copy in every state. An observed
    read is not protected by the accessor slot, so it carries the commit count
    of the word and is checked again before its transaction commits. -/

namespace TransactionalMemory

/-- How access to a word was granted. -/
inductive Grant where
  /-- The transaction has become the accessor. -/
  | claimed
  /-- The transaction already was the accessor. -/
  | owned
  /-- Another transaction is the accessor; the commit count at the read. -/
  | observed (seq : Nat)
  deriving DecidableEq

namespace Segment

/-- The committed value of word `w`: what a read-only transaction reads. -/
def committedBytes (s : Segment) (w : Nat) : List UInt8 := s.load (s.control w).valid w

/-- Reads word `w` for the read-write transaction `id`; `none` is a conflict. -/
def readWord (s : Segment) (id : TransactionId) (w : Nat) :
    Option (Grant × List UInt8) × Segment :=
  let c := s.control w
  if c.written then
    if c.ownedBy id then (some (.owned, s.load c.scratch w), s) else (none, s)
  else
    match c.accessor with
    | none => (some (.claimed, s.load c.valid w), s.setControl w (c.claimedBy id))
    | some owner =>
      (some (if owner = id then .owned else .observed c.seq, s.load c.valid w), s)

/-- Puts bytes into word `w` as the first pending write of the transaction, which
    becomes or stays the accessor. -/
def beginWrite (s : Segment) (id : TransactionId) (w : Nat) (bytes : List UInt8) : Segment :=
  let c := s.control w
  (s.setControl w (c.writtenBy id)).store c.scratch w bytes

/-- Writes bytes into word `w` for the read-write transaction `id`; `none` is a conflict. -/
def writeWord (s : Segment) (id : TransactionId) (w : Nat) (bytes : List UInt8) :
    Option Grant × Segment :=
  let c := s.control w
  if c.written then
    if c.ownedBy id then (some .owned, s.store c.scratch w bytes) else (none, s)
  else
    match c.accessor with
    | none => (some .claimed, s.beginWrite id w bytes)
    | some owner => if owner = id then (some .owned, s.beginWrite id w bytes) else (none, s)

/-- Whether a read of word `w` observed at commit count `seq` still holds for the
    transaction: the word was not committed since, and nobody else has a write
    pending in it. -/
def stillValid (s : Segment) (id : TransactionId) (w seq : Nat) : Bool :=
  let c := s.control w
  c.seq == seq && (!c.written || c.ownedBy id)

/-- Ends the claim of a committing transaction on word `w`: its pending write, if
    any, becomes the committed value. -/
def commitWord (s : Segment) (id : TransactionId) (w : Nat) : Segment :=
  let c := s.control w
  if c.ownedBy id then s.setControl w (if c.written then c.committed else c.released) else s

/-- Ends the claim of an aborting transaction on word `w`: its pending write, if
    any, is given up. -/
def releaseWord (s : Segment) (id : TransactionId) (w : Nat) : Segment :=
  let c := s.control w
  if c.ownedBy id then s.setControl w c.released else s

end Segment

end TransactionalMemory
