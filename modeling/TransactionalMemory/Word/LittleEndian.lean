/-! # Bytes of a number, least significant first

    Memory is read and written as bytes and kept as 64-bit lanes. The number
    that a list of bytes stands for counts the first byte once, the second 256
    times, and so on. Writing a number into `width` bytes keeps its value
    modulo `span width`, so on lists of one length the two are inverse. -/

namespace TransactionalMemory.LittleEndian

/-- The number that the bytes stand for. -/
def decode : List UInt8 → Nat
  | [] => 0
  | b :: rest => b.toNat + 256 * decode rest

/-- The lowest `width` bytes of the number. -/
def encode : (width : Nat) → Nat → List UInt8
  | 0, _ => []
  | width + 1, n => UInt8.ofNat n :: encode width (n / 256)

@[simp] theorem length_encode (width n : Nat) : (encode width n).length = width := by
  induction width generalizing n with
  | zero => rfl
  | succ width ih => simp [encode, ih]

/-- The number of values that `width` bytes have. -/
def span (width : Nat) : Nat := 1 <<< (8 * width)

theorem span_succ (width : Nat) : span (width + 1) = 256 * span width := by
  rw [span, span, Nat.one_shiftLeft, Nat.one_shiftLeft, Nat.mul_succ, Nat.pow_add, Nat.mul_comm]

/-- The bytes of a number stand for it, up to the width. -/
theorem decode_encode (width n : Nat) : decode (encode width n) = n % span width := by
  induction width generalizing n with
  | zero => exact (Nat.mod_one n).symm
  | succ width ih =>
    have hb : (UInt8.ofNat n).toNat = n % 256 := UInt8.toNat_ofNat'
    rw [encode, decode, ih, hb, span_succ, Nat.mod_mul]

/-- The bytes of the number that some bytes stand for are those bytes. -/
theorem encode_decode (bytes : List UInt8) : encode bytes.length (decode bytes) = bytes := by
  induction bytes with
  | nil => rfl
  | cons b rest ih =>
    have hb : b.toNat < 256 := b.toNat_lt
    have hdiv : (b.toNat + 256 * decode rest) / 256 = decode rest := by omega
    have hhead : UInt8.ofNat (b.toNat + 256 * decode rest) = b := by
      apply UInt8.toNat.inj
      rw [UInt8.toNat_ofNat']
      omega
    simp only [List.length_cons, encode, decode, hdiv, ih, hhead]

theorem span_pos (width : Nat) : 0 < span width := by
  rw [span, Nat.one_shiftLeft]
  exact Nat.two_pow_pos _

theorem decode_lt (bytes : List UInt8) : decode bytes < span bytes.length := by
  have h := decode_encode bytes.length (decode bytes)
  rw [encode_decode] at h
  rw [h]
  exact Nat.mod_lt _ (span_pos _)

end TransactionalMemory.LittleEndian
