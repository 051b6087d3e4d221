import FlatMachine.Text.Utf8
import Mathlib.Tactic.Common

/-!
# Text is read back

The encoder spells a character by a lead byte and up to three continuation bytes. None of its
sequences is overlong, a surrogate or above U+10FFFF, so the decoder replaces nothing in them.
-/

namespace FlatMachine.Utf8

section Sequences

variable {a b c d : UInt8} {rest : Bytes}

theorem isContinuation_iff : isContinuation b = true ↔ 0x80 ≤ b.toNat ∧ b.toNat < 0xC0 := by
  simp [isContinuation, UInt8.le_iff_toNat_le, Nat.lt_succ_iff]

theorem isSecond_iff : isSecond a b = true ↔ (0x80 ≤ b.toNat ∧ b.toNat < 0xC0) ∧
    (a.toNat = 0xE0 → 0xA0 ≤ b.toNat) ∧ (a.toNat = 0xED → b.toNat < 0xA0) ∧
    (a.toNat = 0xF0 → 0x90 ≤ b.toNat) ∧ (a.toNat = 0xF4 → b.toNat < 0x90) := by
  simp only [isSecond, beq_iff_eq, ← UInt8.toNat_inj]
  split_ifs <;> simp_all [isContinuation, UInt8.le_iff_toNat_le, Nat.lt_succ_iff] <;> omega

theorem not_single (h : 0x80 ≤ a.toNat) : ¬ a < 0x80 := by
  rw [UInt8.not_lt]
  exact h

theorem isLead (h : 0xC2 ≤ a.toNat ∧ a.toNat ≤ 0xF4) : (a < 0xC2 || 0xF4 < a) = false := by
  simp only [Bool.or_eq_false_iff, decide_eq_false_iff_not, UInt8.not_lt]
  exact h

theorem decode_single (ha : a.toNat < 0x80) :
    decode (a :: rest) = Char.ofNat a.toNat :: decode rest := by
  have hsingle : a < 0x80 := ha
  rw [decode.eq_def]
  simp only [if_pos hsingle]

theorem decode_pair (ha : 0xC2 ≤ a.toNat ∧ a.toNat < 0xE0) (hb : isSecond a b = true) :
    decode (a :: b :: rest) =
      Char.ofNat ((a.toNat - 0xC0) * 64 + tailBits b) :: decode rest := by
  have hlead := isLead (a := a) ⟨ha.1, by omega⟩
  have hpair : a < 0xE0 := ha.2
  rw [decode.eq_def]
  simp only [if_neg (not_single (a := a) (by omega)), hlead, hb, if_pos hpair, Bool.false_eq_true,
    if_false, Bool.not_true]

theorem decode_triple (ha : 0xE0 ≤ a.toNat ∧ a.toNat < 0xF0) (hb : isSecond a b = true)
    (hc : isContinuation c = true) :
    decode (a :: b :: c :: rest) =
      Char.ofNat ((a.toNat - 0xE0) * 4096 + tailBits b * 64 + tailBits c) :: decode rest := by
  have hlead := isLead (a := a) ⟨by omega, by omega⟩
  have hpair : ¬ a < 0xE0 := UInt8.not_lt.mpr ha.1
  have htriple : a < 0xF0 := ha.2
  rw [decode.eq_def]
  simp only [if_neg (not_single (a := a) (by omega)), hlead, hb, hc, if_neg hpair, if_pos htriple,
    Bool.false_eq_true, if_false, Bool.not_true]

theorem decode_quadruple (ha : 0xF0 ≤ a.toNat ∧ a.toNat ≤ 0xF4) (hb : isSecond a b = true)
    (hc : isContinuation c = true) (hd : isContinuation d = true) :
    decode (a :: b :: c :: d :: rest) =
      Char.ofNat ((a.toNat - 0xF0) * 262144 + tailBits b * 4096 + tailBits c * 64 + tailBits d) ::
        decode rest := by
  have hlead := isLead (a := a) ⟨by omega, ha.2⟩
  have hpair : ¬ a < 0xE0 := UInt8.not_lt.mpr (UInt8.le_iff_toNat_le.mpr (by simp; omega))
  have htriple : ¬ a < 0xF0 := UInt8.not_lt.mpr ha.1
  rw [decode.eq_def]
  simp only [if_neg (not_single (a := a) (by omega)), hlead, hb, hc, hd, if_neg hpair,
    if_neg htriple, Bool.false_eq_true, if_false, Bool.not_true]

end Sequences

theorem toNat_ofNat {n : Nat} (h : n < 256) : (UInt8.ofNat n).toNat = n := by
  rw [UInt8.toNat_ofNat', Nat.mod_eq_of_lt h]

/-- The continuation byte of six bits. -/
def tail (n : Nat) : UInt8 := UInt8.ofNat (n % 64 + 0x80)

theorem toNat_tail (n : Nat) : (tail n).toNat = n % 64 + 0x80 := toNat_ofNat (by omega)

theorem isContinuation_tail (n : Nat) : isContinuation (tail n) = true := by
  rw [isContinuation_iff, toNat_tail]
  omega

theorem tailBits_tail (n : Nat) : tailBits (tail n) = n % 64 := by
  have hbits := toNat_tail n
  unfold tailBits
  omega

theorem decode_utf8EncodeChar (ch : Char) (rest : Bytes) :
    decode (String.utf8EncodeChar ch ++ rest) = ch :: decode rest := by
  have hvalid : ch.toNat < 0xD800 ∨ 0xDFFF < ch.toNat ∧ ch.toNat < 0x110000 := ch.valid
  have hback : ∀ n, n = ch.toNat → Char.ofNat n = ch := fun n hn => hn ▸ Char.ofNat_toNat ch
  have hval : ch.val.toNat = ch.toNat := rfl
  simp only [String.utf8EncodeChar, hval]
  generalize ch.toNat = v at hvalid hback
  -- One case for each length, with the high bits of the code point in the lead byte.
  split_ifs with hsingle hpair htriple
  · have ha : (UInt8.ofNat v).toNat = v := toNat_ofNat (by omega)
    rw [List.singleton_append, decode_single (by omega), ha, hback v rfl]
  · change decode (UInt8.ofNat (v / 64 % 32 + 0xC0) :: tail v :: rest) = _
    have ha : (UInt8.ofNat (v / 64 % 32 + 0xC0)).toNat = v / 64 % 32 + 0xC0 :=
      toNat_ofNat (by omega)
    have hb : isSecond (UInt8.ofNat (v / 64 % 32 + 0xC0)) (tail v) = true := by
      rw [isSecond_iff, ha, toNat_tail]
      omega
    rw [decode_pair (by omega) hb, ha, tailBits_tail, hback _ (by omega)]
  · change decode (UInt8.ofNat (v / 4096 % 16 + 0xE0) :: tail (v / 64) :: tail v :: rest) = _
    have ha : (UInt8.ofNat (v / 4096 % 16 + 0xE0)).toNat = v / 4096 % 16 + 0xE0 :=
      toNat_ofNat (by omega)
    have hb : isSecond (UInt8.ofNat (v / 4096 % 16 + 0xE0)) (tail (v / 64)) = true := by
      rw [isSecond_iff, ha, toNat_tail]
      omega
    rw [decode_triple (by omega) hb (isContinuation_tail v), ha, tailBits_tail, tailBits_tail,
      hback _ (by omega)]
  · change decode (UInt8.ofNat (v / 262144 % 8 + 0xF0) :: tail (v / 4096) :: tail (v / 64) ::
      tail v :: rest) = _
    have ha : (UInt8.ofNat (v / 262144 % 8 + 0xF0)).toNat = v / 262144 % 8 + 0xF0 :=
      toNat_ofNat (by omega)
    have hb : isSecond (UInt8.ofNat (v / 262144 % 8 + 0xF0)) (tail (v / 4096)) = true := by
      rw [isSecond_iff, ha, toNat_tail]
      omega
    rw [decode_quadruple (by omega) hb (isContinuation_tail _) (isContinuation_tail v), ha,
      tailBits_tail, tailBits_tail, tailBits_tail, hback _ (by omega)]

theorem decode_flatMap (text : List Char) : decode (text.flatMap String.utf8EncodeChar) = text := by
  induction text with
  | nil => rfl
  | cons ch rest ih => rw [List.flatMap_cons, decode_utf8EncodeChar, ih]

/-- Decoding replaces nothing in an encoded text. -/
@[simp] theorem decodeText_encode (text : String) : decodeText (encode text) = text := by
  rw [decodeText, encode, decode_flatMap, String.ofList_toList]

/-- The bytes of a text are as many as the text's own. -/
theorem length_encode (text : String) : (encode text).length = text.utf8ByteSize := by
  have hbytes : text.toList.utf8Encode = text.toByteArray := by
    rw [← String.toByteArray_ofList, String.ofList_toList]
  rw [← String.size_toByteArray, ← hbytes, List.utf8Encode, List.size_toByteArray, encode]

end FlatMachine.Utf8
