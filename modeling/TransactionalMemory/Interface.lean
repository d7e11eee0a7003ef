import TransactionalMemory.Session.Basic

/-! # The handle interface

    Regions and transactions seen from a caller who holds nothing but numbers.
    A region handle is zero (the null handle) when there is no region; a
    transaction handle that names no open transaction is zero or
    `invalidTransaction`. A transaction handle alone decides on which region
    the transaction works.

    Failures are reported without their cause: by false, or by one of three
    codes for an allocation. A call that ought to bring a buffer and does not
    aborts its transaction. So as long as a transaction is open, it is doomed
    after exactly those calls that report failure. -/

namespace TransactionalMemory

/-- The handle returned when no transaction could be begun. -/
def invalidTransaction : Nat := UInt64.size - 1

/-- The handle returned when no region could be created. -/
def nullRegion : Nat := 0

/-- What an allocation reports. -/
inductive AllocCode where
  /-- The segment was allocated. -/
  | success
  /-- The transaction is doomed. -/
  | aborted
  /-- There is no memory, and the transaction may go on. -/
  | noMemory
  deriving DecidableEq

def AllocCode.number : AllocCode → Nat
  | .success => 0
  | .aborted => 1
  | .noMemory => 2

/-- The regions and transactions behind the handles. -/
structure Interface where
  /-- The region of each handle from 1 on; `none` once destroyed. -/
  sessions : Array (Option Session) := #[]
  /-- The region handle and the transaction of each transaction handle from 1 on. -/
  transactions : Array (Nat × Handle) := #[]

namespace Interface

/-! ## Handles -/

def session? (i : Interface) : (region : Nat) → Option Session
  | 0 => none
  | n + 1 => (i.sessions[n]?).join

/-- Replaces the region of a handle. There is none to replace for the null handle. -/
def setSession (i : Interface) (region : Nat) (s : Option Session) : Interface :=
  match region with
  | 0 => i
  | n + 1 => { i with sessions := i.sessions.setIfInBounds n s }

/-- The region handle and the transaction of a transaction handle. -/
def locate? (i : Interface) : (transaction : Nat) → Option (Nat × Handle)
  | 0 => none
  | n + 1 => i.transactions[n]?

/-- The open transaction of a handle, with its region and the handle of that. -/
def transaction? (i : Interface) (transaction : Nat) : Option (Nat × Session × Handle) := do
  let (region, h) ← i.locate? transaction
  let s ← i.session? region
  if (s.open? h).isSome then some (region, s, h) else none

/-! ## Regions -/

/-- Creates a region and returns its handle, null on failure. There may be no
    `memory` for its permanent segment. -/
def create (i : Interface) (size align : Nat) (memory : Bool) : Nat × Interface :=
  match Session.create { size, align } memory with
  | .error _ => (nullRegion, i)
  | .ok s => (i.sessions.size + 1, { i with sessions := i.sessions.push (some s) })

/-- Destroys a region, on which no transaction may be open. Does nothing for the
    null handle. -/
def destroy (i : Interface) (region : Nat) : Interface := i.setSession region none

/-- The address of the first byte of a region, null for none. -/
def start (i : Interface) (region : Nat) : Address :=
  (i.session? region).elim .null fun _ => Region.start

def size (i : Interface) (region : Nat) : Nat :=
  (i.session? region).elim 0 fun s => s.region.size

def align (i : Interface) (region : Nat) : Nat :=
  (i.session? region).elim 0 fun s => s.region.wordSize

/-! ## Transactions -/

/-- Begins a transaction and returns its handle. -/
def begin (i : Interface) (region : Nat) (readOnly : Bool) : Nat × Interface :=
  match i.session? region with
  | none => (invalidTransaction, i)
  | some s =>
    match s.begin readOnly with
    | (.started h, s) =>
      (i.transactions.size + 1,
        { i.setSession region (some s) with transactions := i.transactions.push (region, h) })
    | _ => (invalidTransaction, i)

def finish (i : Interface) (transaction : Nat) : Bool × Interface :=
  match i.transaction? transaction with
  | none => (false, i)
  | some (region, s, h) =>
    let (committed, s) := s.finish h
    (committed.getD false, i.setSession region (some s))

def abort (i : Interface) (transaction : Nat) : Interface :=
  match i.transaction? transaction with
  | none => i
  | some (region, s, h) => i.setSession region (some (s.abort h))

/-- Runs an operation of a transaction. The result is `none` without one. -/
def access {α : Type} (i : Interface) (transaction : Nat)
    (operation : Session → Handle → Option (Except Failure α) × Session) :
    Option (Except Failure α) × Interface :=
  match i.transaction? transaction with
  | none => (none, i)
  | some (region, s, h) =>
    let (value, s) := operation s h
    (value, i.setSession region (some s))

/-- The bytes at an address, if the read succeeded. Without a buffer to put
    them into, the transaction is aborted. -/
def read (i : Interface) (transaction : Nat) (a : Address) (length : Nat) (hasBuffer : Bool) :
    Option (List UInt8) × Interface :=
  if hasBuffer then
    match i.access transaction fun s h => s.read h a length with
    | (some (.ok bytes), i) => (some bytes, i)
    | (_, i) => (none, i)
  else (none, i.abort transaction)

/-- Writes the bytes of a buffer at an address, and returns whether that
    succeeded. Without a buffer, the transaction is aborted. -/
def write (i : Interface) (transaction : Nat) (a : Address) (buffer : Option (List UInt8)) :
    Bool × Interface :=
  match buffer with
  | none => (false, i.abort transaction)
  | some bytes =>
    match i.access transaction fun s h => s.write h a bytes with
    | (some (.ok ()), i) => (true, i)
    | (_, i) => (false, i)

/-- Allocates a segment, if there is `memory` for it. Without a buffer to put its
    address into, the transaction is aborted. -/
def alloc (i : Interface) (transaction : Nat) (size : Nat) (hasBuffer memory : Bool) :
    AllocCode × Option Address × Interface :=
  if hasBuffer then
    match i.access transaction fun s h => s.alloc h size memory with
    | (some (.ok a), i) => (.success, some a, i)
    | (some (.error .outOfMemory), i) => (.noMemory, none, i)
    | (_, i) => (.aborted, none, i)
  else (.aborted, none, i.abort transaction)

/-- Frees the segment that starts at an address, and returns whether that succeeded. -/
def free (i : Interface) (transaction : Nat) (a : Address) : Bool × Interface :=
  match i.access transaction fun s h => s.free h a with
  | (some (.ok ()), i) => (true, i)
  | (_, i) => (false, i)

end Interface

end TransactionalMemory
