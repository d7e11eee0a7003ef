import TransactionalMemory.Settings
import TransactionalMemory.Word.Control
import TransactionalMemory.Word.Lane

/-! # Segments

    A segment is the unit of allocation: a number of words of equal width. It
    holds two copies of every word, each a row of lanes, and one control per
    word. Word `w` takes the lanes from `w * lanesPerWord` on in either row, so
    different words never share a lane. A fresh segment is all zeros, and none
    of its words has been accessed. -/

namespace TransactionalMemory

/-- An allocation of words, in two copies. -/
structure Segment where
  /-- The slot under which the segment is reached. -/
  slot : Nat
  size : Nat
  wordSize : Nat
  copyA : Array Lane
  copyB : Array Lane
  controls : Array Control.Packed
  deriving DecidableEq

namespace Segment

/-- A segment of zeros in which no word has been accessed. -/
def zeroed (slot size wordSize : Nat) : Segment where
  slot := slot
  size := size
  wordSize := wordSize
  copyA := Array.replicate (size / laneBytes) 0
  copyB := Array.replicate (size / laneBytes) 0
  controls := Array.replicate (size / wordSize) default

/-- A fresh segment, if there is `memory` for its buffers. -/
def create? (slot size wordSize : Nat) (memory : Bool) : Option Segment :=
  if memory then some (zeroed slot size wordSize) else none

def words (s : Segment) : Nat := s.controls.size

def lanesPerWord (s : Segment) : Nat := s.wordSize / laneBytes

def firstLane (s : Segment) (w : Nat) : Nat := w * s.lanesPerWord

/-- Bytes that the segment holds, controls included. -/
def bytesHeld (s : Segment) : Nat := footprint s.size s.wordSize

/-! ## Controls -/

def control (s : Segment) (w : Nat) : Control := Control.unpack (s.controls[w]?.getD default)

def setControl (s : Segment) (w : Nat) (c : Control) : Segment :=
  { s with controls := s.controls.setIfInBounds w c.pack }

/-- Stores `new` as the control of word `w` if the stored one has the same bits
    as `expected`. Both outcomes carry the control that was found. -/
def exchangeControl (s : Segment) (w : Nat) (expected new : Control) :
    Except Control Control × Segment :=
  let found := s.control w
  if found.pack = expected.pack then (.ok found, s.setControl w new) else (.error found, s)

/-! ## Copies -/

def lanes (s : Segment) : Copy → Array Lane
  | .a => s.copyA
  | .b => s.copyB

def updateLanes (s : Segment) (c : Copy) (change : Array Lane → Array Lane) : Segment :=
  match c with
  | .a => { s with copyA := change s.copyA }
  | .b => { s with copyB := change s.copyB }

/-- The bytes of word `w` in one copy. -/
def load (s : Segment) (c : Copy) (w : Nat) : List UInt8 :=
  let first := s.firstLane w
  Lane.toBytes ((s.lanes c).extract first (first + s.lanesPerWord)).toList

/-- Puts bytes into word `w` of one copy: as many lanes as they fill and the word has. -/
def store (s : Segment) (c : Copy) (w : Nat) (bytes : List UInt8) : Segment :=
  let first := s.firstLane w
  let lanes := (Lane.ofBytes bytes).take s.lanesPerWord
  s.updateLanes c fun row => Lane.overwrite row first lanes

def describe (s : Segment) : String :=
  Text.record "Segment"
    [("slot", Text.decimal s.slot), ("size", Text.decimal s.size), ("words", Text.decimal s.words)]

/-! ## What each update leaves alone -/

@[simp] theorem lanes_setControl (s : Segment) (w : Nat) (c : Control) (copy : Copy) :
    (s.setControl w c).lanes copy = s.lanes copy := by cases copy <;> rfl

@[simp] theorem load_setControl (s : Segment) (w v : Nat) (c : Control) (copy : Copy) :
    (s.setControl w c).load copy v = s.load copy v := by
  cases copy <;> rfl

theorem control_setControl_self (s : Segment) {w : Nat} (c : Control) (h : w < s.words) :
    (s.setControl w c).control w = { c with seq := c.seq % commitCounts } := by
  unfold words at h
  simp [control, setControl, h, Control.unpack_pack]

theorem control_setControl_ne (s : Segment) {w v : Nat} (c : Control) (h : w ≠ v) :
    (s.setControl w c).control v = s.control v := by
  simp [control, setControl, Array.getElem?_setIfInBounds_ne h]

@[simp] theorem controls_updateLanes (s : Segment) (c : Copy) (change : Array Lane → Array Lane) :
    (s.updateLanes c change).controls = s.controls := by cases c <;> rfl

@[simp] theorem lanes_updateLanes_self (s : Segment) (c : Copy) (change : Array Lane → Array Lane) :
    (s.updateLanes c change).lanes c = change (s.lanes c) := by cases c <;> rfl

theorem lanes_updateLanes_ne (s : Segment) {c d : Copy} (change : Array Lane → Array Lane)
    (h : c ≠ d) : (s.updateLanes c change).lanes d = s.lanes d := by
  cases c <;> cases d <;> simp_all [updateLanes, lanes]

@[simp] theorem control_store (s : Segment) (c : Copy) (w v : Nat) (bytes : List UInt8) :
    (s.store c w bytes).control v = s.control v := by
  simp [control, store]

@[simp] theorem words_setControl (s : Segment) (w : Nat) (c : Control) :
    (s.setControl w c).words = s.words := by simp [words, setControl]

@[simp] theorem words_store (s : Segment) (c : Copy) (w : Nat) (bytes : List UInt8) :
    (s.store c w bytes).words = s.words := by simp [words, store]

end Segment

end TransactionalMemory
