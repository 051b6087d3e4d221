import FlatMachine.LittleEndian

/-!
# Hexadecimal

Bytes as pairs of lower-case digits, and words as digits with the most significant one first.
-/

namespace FlatMachine.Hexadecimal

/-- A number as that many digits, or more if it needs them. -/
def word (digits n : Nat) : List Char :=
  let text := Nat.toDigits 16 n
  List.replicate (digits - text.length) '0' ++ text

def digit? (c : Char) : Option Nat :=
  if c.isDigit then some (c.toNat - 48)
  else if 'a' ≤ c ∧ c ≤ 'f' then some (c.toNat - 87)
  else none

/-- The number that digits spell. -/
def ofWord? (digits : List Char) : Option Nat :=
  digits.foldlM (fun acc c => (digit? c).map (16 * acc + ·)) 0

def encode (bytes : Bytes) : List Char := bytes.flatMap fun b => word 2 b.toNat

/-- The bytes that digits spell. -/
def decode? : List Char → Option Bytes
  | [] => some []
  | [_] => none
  | a :: b :: rest => do
    let n ← ofWord? [a, b]
    return UInt8.ofNat n :: (← decode? rest)

/-- A byte has two digits, which spell it. -/
theorem exists_word_two (b : UInt8) :
    ∃ x y, word 2 b.toNat = [x, y] ∧ ofWord? [x, y] = some b.toNat := by
  have all : ∀ n : Fin 256, (word 2 n.val).length = 2 ∧ ofWord? (word 2 n.val) = some n.val := by
    decide +kernel
  obtain ⟨length, value⟩ := all ⟨b.toNat, b.toNat_lt⟩
  match pair : word 2 b.toNat with
  | [x, y] => exact ⟨x, y, rfl, pair ▸ value⟩
  | [] | [_] | _ :: _ :: _ :: _ => simp [pair] at length

theorem decode?_encode (bytes : Bytes) : decode? (encode bytes) = some bytes := by
  induction bytes with
  | nil => rfl
  | cons b rest ih =>
    obtain ⟨x, y, pair, value⟩ := exists_word_two b
    unfold encode at ih ⊢
    simp [pair, decode?, value, ih]

end FlatMachine.Hexadecimal
