/-!
# Little-endian words

A word of `width` bytes is stored with its least significant byte at the lowest address.
-/

namespace FlatMachine

/-- Bytes in address order. -/
abbrev Bytes := List UInt8

namespace LittleEndian

/-- The `width` low bytes of `n`. -/
def encode : Nat → Nat → Bytes
  | 0, _ => []
  | width + 1, n => UInt8.ofNat n :: encode width (n / 256)

/-- The number that the bytes spell. -/
def decode : Bytes → Nat
  | [] => 0
  | b :: rest => b.toNat + 256 * decode rest

@[simp] theorem length_encode (width n : Nat) : (encode width n).length = width := by
  induction width generalizing n with
  | zero => rfl
  | succ width ih => simp [encode, ih]

theorem decode_lt (bytes : Bytes) : decode bytes < Nat.pow 256 bytes.length := by
  induction bytes with
  | nil => simp [decode]
  | cons b rest ih =>
      have hb := b.toNat_lt
      have hp : Nat.pow 256 (b :: rest).length = Nat.pow 256 rest.length * 256 := rfl
      simp only [decode]
      omega

theorem decode_encode {width n : Nat} (h : n < Nat.pow 256 width) : decode (encode width n) = n := by
  induction width generalizing n with
  | zero => simp_all [encode, decode]
  | succ width ih =>
      have hp : Nat.pow 256 (width + 1) = Nat.pow 256 width * 256 := rfl
      have hq : n / 256 < Nat.pow 256 width := by omega
      simp only [encode, decode, ih hq, UInt8.toNat_ofNat']
      omega

theorem encode_decode (bytes : Bytes) : encode bytes.length (decode bytes) = bytes := by
  induction bytes with
  | nil => rfl
  | cons b rest ih =>
      have hb := b.toNat_lt
      have hq : (b.toNat + 256 * decode rest) / 256 = decode rest := by omega
      have hr : UInt8.ofNat (b.toNat + 256 * decode rest) = b := by
        apply UInt8.toNat_inj.mp
        rw [UInt8.toNat_ofNat']
        omega
      simp only [List.length_cons, encode, decode, hq, hr, ih]

end LittleEndian

end FlatMachine
