import Mathlib.Algebra.Group.Nat.Defs
import TransactionalMemory.Transaction.Access

/-! # Sizes in words of 64 bits

    Sizes are calculated with natural numbers, and so never too large. A machine
    calculates with words of 64 bits: a sum or a product may not fit, a
    difference may be negative, a divisor may be zero. Here the calculations of a
    creation and of an allocation are made step by step with operations that
    fault in these cases.

    Nothing ever faults, because of three guards:

    1. An alignment that is no power of two is refused before anything is divided
       by it. Zero is none.
    2. A size beyond what an address spans is refused before it is doubled or
       rounded.
    3. A charge that does not fit is beyond every limit. It is refused, and the
       bytes in use stay as they are. -/

namespace TransactionalMemory

/-! ## Operations that fault -/

namespace Word64

/-- The result of an operation, unless it takes more than 64 bits. -/
def fit (n : Nat) : Option Nat := if n < UInt64.size then some n else none

def add (m n : Nat) : Option Nat := fit (m + n)

def mul (m n : Nat) : Option Nat := fit (m * n)

def sub (m n : Nat) : Option Nat := if n ≤ m then some (m - n) else none

def div (m n : Nat) : Option Nat := if n = 0 then none else some (m / n)

def rem (m n : Nat) : Option Nat := if n = 0 then none else some (m % n)

variable {m n : Nat}

theorem add_eq (h : m + n < UInt64.size) : add m n = some (m + n) := if_pos h

theorem mul_eq (h : m * n < UInt64.size) : mul m n = some (m * n) := if_pos h

theorem sub_eq (h : n ≤ m) : sub m n = some (m - n) := if_pos h

theorem div_eq (h : 0 < n) : div m n = some (m / n) := if_neg (Nat.ne_of_gt h)

theorem rem_eq (h : 0 < n) : rem m n = some (m % n) := if_neg (Nat.ne_of_gt h)

end Word64

open Word64

/-! ## Sizes -/

def roundUp64 (n step : Nat) : Option Nat := do
  let part ← rem n step
  if part = 0 then return n
  let gap ← sub step part
  add n gap

def footprint64 (size wordSize : Nat) : Option Nat := do
  let copies ← mul 2 size
  let words ← div size wordSize
  let controls ← mul words controlBytes
  add copies controls

def Settings.check64 (s : Settings) : Option (Except Failure Unit) :=
  if isPowerOfTwo s.align = false ∨ s.size = 0 then
    return .error (.invalidLayout s.size s.align)
  else do
    let part ← rem s.size s.align
    if part ≠ 0 then return .error (.invalidLayout s.size s.align)
    if maxSegmentBytes < s.size then return .error (.invalidLayout s.size s.align)
    return .ok ()

theorem Settings.wordSize_pos (s : Settings) : 0 < s.wordSize :=
  Nat.lt_of_lt_of_le (by decide) (Nat.le_max_right s.align minWordSize)

/-- Rounding adds what is missing from the last part. -/
theorem roundUp_eq {n step : Nat} (h : 0 < step) :
    roundUp n step = if n % step = 0 then n else n + (step - n % step) := by
  have hlt := Nat.mod_lt n h
  have hparts := Nat.div_add_mod n step
  unfold roundUp
  by_cases hpart : n % step = 0
  · have hwhole : n + step - 1 = step * (n / step) + (step - 1) := by omega
    have hrest : step - 1 < step := by omega
    rw [if_pos hpart, hwhole, Nat.mul_add_div h, Nat.div_eq_of_lt hrest, Nat.add_zero, Nat.mul_comm]
    omega
  · have hnext : step * (n / step + 1) = step * (n / step) + step := Nat.mul_succ ..
    have hmore : n + step - 1 = step * (n / step + 1) + (n % step - 1) := by omega
    have hrest : n % step - 1 < step := by omega
    rw [if_neg hpart, hmore, Nat.mul_add_div h, Nat.div_eq_of_lt hrest, Nat.add_zero, Nat.mul_comm]
    omega

theorem le_roundUp {n step : Nat} (h : 0 < step) :
    n ≤ roundUp n step ∧ roundUp n step < n + step := by
  have hlt := Nat.mod_lt n h
  rw [roundUp_eq h]
  split
  · omega
  · omega

theorem roundUp64_eq {n step : Nat} (h : 0 < step) (hfits : n + step < UInt64.size) :
    roundUp64 n step = some (roundUp n step) := by
  have hlt := Nat.mod_lt n h
  have hsum : n + (step - n % step) < UInt64.size := by omega
  rw [roundUp_eq h]
  simp only [roundUp64, rem_eq h, sub_eq (Nat.le_of_lt hlt), add_eq hsum, Option.bind_eq_bind,
    Option.bind_some]
  split
  · rfl
  · rfl

/-- The segments that an address spans take far less than 64 bits. -/
theorem footprint_le {size : Nat} (hsize : size ≤ maxSegmentBytes) (wordSize : Nat) :
    size / wordSize * controlBytes ≤ 2 ^ 44 ∧ footprint size wordSize ≤ 2 ^ 41 + 2 ^ 44 := by
  have hlimit : maxSegmentBytes = 2 ^ 40 := by decide
  have hwords : size / wordSize ≤ size := Nat.div_le_self size wordSize
  unfold footprint controlBytes
  omega

theorem footprint64_eq {size wordSize : Nat} (hsize : size ≤ maxSegmentBytes)
    (h : 0 < wordSize) : footprint64 size wordSize = some (footprint size wordSize) := by
  obtain ⟨hcontrols, htotal⟩ := footprint_le hsize wordSize
  have hwidth : UInt64.size = 2 ^ 64 := rfl
  have hlimit : maxSegmentBytes = 2 ^ 40 := by decide
  have hcopies : mul 2 size = some (2 * size) := mul_eq (by omega)
  have hwords : mul (size / wordSize) controlBytes = some (size / wordSize * controlBytes) :=
    mul_eq (by omega)
  have hsum : add (2 * size) (size / wordSize * controlBytes) = some (footprint size wordSize) :=
    add_eq (show footprint size wordSize < UInt64.size by omega)
  simp only [footprint64, hcopies, div_eq h, hwords, hsum, Option.bind_eq_bind, Option.bind_some]

/-- The power of two is tested first, so there is always something to divide by. -/
theorem Settings.check64_eq (s : Settings) : s.check64 = some s.check := by
  unfold check64 check
  by_cases hearly : isPowerOfTwo s.align = false ∨ s.size = 0
  · rw [if_pos hearly, if_neg]
    · rfl
    · rintro ⟨hpower, hsize, -⟩
      rcases hearly with hnone | hzero
      · exact Bool.false_ne_true (hnone.symm.trans hpower)
      · exact hsize hzero
  · obtain ⟨hpower, hsize⟩ := not_or.1 hearly
    rw [Bool.not_eq_false] at hpower
    have hpositive : 0 < s.align := by
      apply Nat.pos_of_ne_zero
      intro hzero
      rw [hzero] at hpower
      cases hpower
    rw [if_neg hearly, rem_eq hpositive]
    simp only [Option.bind_eq_bind, Option.bind_some]
    grind

/-! ## Segments -/

def Segment.create64? (slot size wordSize : Nat) (memory : Bool) : Option (Option Segment) := do
  let words ← div size wordSize
  let lanes ← div size laneBytes
  if memory then
    return some
      { slot, size, wordSize
        copyA := Array.replicate lanes 0
        copyB := Array.replicate lanes 0
        controls := Array.replicate words default }
  else return none

namespace Region

/-- The bytes in use with some more charged, unless they go beyond the memory
    limit. A sum that does not fit is no fault here. -/
def charge64? (r : Region) (bytes : Nat) : Option Nat :=
  (add r.bytesInUse bytes).filter (· ≤ r.settings.byteLimit)

def tryAllocate64 (r : Region) (size : Nat) (memory : Bool) : Option (Option Nat × Region) :=
  if maxSegmentBytes < size then return (none, r)
  else do
    let bytes ← footprint64 size r.wordSize
    match r.charge64? bytes with
    | none => return (none, r)
    | some used =>
      match r.table.reserve? with
      | none =>
        let before ← sub used bytes
        return (none, { r with bytesInUse := before })
      | some (slot, table) =>
        match ← Segment.create64? slot size r.wordSize memory with
        | none =>
          let before ← sub used bytes
          return (none, { r with table := table.recycle slot, bytesInUse := before })
        | some segment =>
          return (some slot, { r with
            segments := r.segments.push (some segment)
            table := table.publish slot r.segments.size
            bytesInUse := used })

def create64 (settings : Settings) (memory : Bool) : Option (Except Failure Region) := do
  match ← settings.check64 with
  | .error failure => return .error failure
  | .ok () =>
    let size ← roundUp64 settings.size settings.wordSize
    match ← tryAllocate64 { settings } size memory with
    | (none, _) => return .error .outOfMemory
    | (some _, r) => return .ok r

end Region

def Transaction.alloc64 (t : Transaction) (r : Region) (size : Nat) (memory : Bool) :
    Option (Outcome Address) :=
  if t.doomed then return t.refuse r
  else if t.isReadOnly then return t.fail r .readOnly
  else if size = 0 then return t.fail r (.invalidLayout size r.wordSize)
  else do
    let part ← rem size r.wordSize
    if part ≠ 0 then return t.fail r (.invalidLayout size r.wordSize)
    match ← r.tryAllocate64 size memory with
    | (none, r) => return ⟨.error .outOfMemory, t, r⟩
    | (some slot, r) =>
      return ⟨.ok (.ofParts slot 0), { t with allocated := slot :: t.allocated }, r⟩

/-! ## Nothing faults -/

theorem Segment.create64?_eq {wordSize : Nat} (h : 0 < wordSize) (slot size : Nat)
    (memory : Bool) :
    create64? slot size wordSize memory = some (create? slot size wordSize memory) := by
  have hlanes : div size laneBytes = some (size / laneBytes) := div_eq (by decide)
  simp only [create64?, create?, div_eq h, hlanes, Option.bind_eq_bind, Option.bind_some]
  cases memory with
  | true => rfl
  | false => rfl

namespace Region

variable {r : Region}

/-- A sum that does not fit is beyond the limit, which fits. -/
theorem charge64?_eq (hlimit : r.settings.byteLimit < UInt64.size) (bytes : Nat) :
    r.charge64? bytes = r.charge? bytes := by
  unfold charge64? charge? add fit
  by_cases hfits : r.bytesInUse + bytes < UInt64.size
  · rw [if_pos hfits]
    by_cases hcharged : r.settings.byteLimit < r.bytesInUse + bytes
    · simp [hcharged]
    · simp [hcharged, Nat.le_of_not_lt hcharged]
  · have hbeyond : r.settings.byteLimit < r.bytesInUse + bytes := by omega
    simp [hfits, hbeyond]

/-- What is charged can be given back. -/
theorem sub_of_charge? {bytes used : Nat} (h : r.charge? bytes = some used) :
    sub used bytes = some (used - bytes) := by
  apply sub_eq
  simp only [charge?] at h
  split at h
  · cases h
  · cases h
    exact Nat.le_add_left bytes r.bytesInUse

theorem tryAllocate64_eq (hpositive : 0 < r.wordSize)
    (hlimit : r.settings.byteLimit < UInt64.size) (size : Nat) (memory : Bool) :
    r.tryAllocate64 size memory = some (r.tryAllocate size memory) := by
  unfold tryAllocate64 tryAllocate
  by_cases hspan : maxSegmentBytes < size
  · rw [if_pos hspan, if_pos hspan]
    rfl
  · have hsize := Nat.le_of_not_lt hspan
    rw [if_neg hspan, if_neg hspan, footprint64_eq hsize hpositive]
    simp only [Option.bind_eq_bind, Option.bind_some, charge64?_eq hlimit]
    cases hcharge : r.charge? (footprint size r.wordSize) with
    | none => rfl
    | some used =>
      have hback := sub_of_charge? hcharge
      cases r.table.reserve? with
      | none => simp only [hback, Option.bind_some]; rfl
      | some reserved =>
        simp only [hback, Segment.create64?_eq hpositive, Option.bind_some]
        cases Segment.create? reserved.1 size r.wordSize memory with
        | none => rfl
        | some segment => rfl

/-- A creation gives what it gives in natural numbers. -/
theorem create64_eq {settings : Settings} (hlimit : settings.byteLimit < UInt64.size)
    (memory : Bool) : create64 settings memory = some (create settings memory) := by
  have hpositive := settings.wordSize_pos
  unfold create64 create
  rw [settings.check64_eq]
  simp only [Option.bind_eq_bind, Option.bind_some]
  cases hcheck : settings.check with
  | error failure => rfl
  | ok _ =>
    -- The alignment divides the size, so it is no larger.
    obtain ⟨hsize, hpart, hspan⟩ : settings.size ≠ 0 ∧ settings.size % settings.align = 0 ∧
        settings.size ≤ maxSegmentBytes := by
      unfold Settings.check at hcheck
      split at hcheck
      next hall => exact hall.2
      next => cases hcheck
    have halign : settings.align ≤ settings.size :=
      Nat.le_of_dvd (Nat.pos_of_ne_zero hsize) (Nat.dvd_of_mod_eq_zero hpart)
    have hfits : settings.size + settings.wordSize < UInt64.size := by
      have hmax : maxSegmentBytes = 2 ^ 40 := by decide
      have hwidth : UInt64.size = 2 ^ 64 := rfl
      unfold Settings.wordSize minWordSize
      omega
    have hattempt := tryAllocate64_eq (r := { settings }) hpositive hlimit
    simp only [roundUp64_eq hpositive hfits, Option.bind_some, hattempt,
      Settings.permanentSize]
    rcases tryAllocate { settings } (roundUp settings.size settings.wordSize) memory
      with ⟨_ | slot, r⟩
    · rfl
    · rfl

end Region

/-- And so does an allocation, of whatever size. -/
theorem Transaction.alloc64_eq (t : Transaction) {r : Region} (hpositive : 0 < r.wordSize)
    (hlimit : r.settings.byteLimit < UInt64.size) (size : Nat) (memory : Bool) :
    t.alloc64 r size memory = some (t.alloc r size memory) := by
  have hattempt := Region.tryAllocate64_eq hpositive hlimit size memory
  unfold alloc64 alloc
  simp only [rem_eq hpositive, hattempt, Option.bind_eq_bind, Option.bind_some]
  rcases r.tryAllocate size memory with ⟨_ | slot, r'⟩
  · grind
  · grind

end TransactionalMemory
