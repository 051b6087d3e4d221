import FlatMachine.Size
import FlatMachine.Text.Alphanumeric
import FlatMachine.Text.Blank
import FlatMachine.Ty.Basic

/-!
# Reading type names

`[]T` is a slice, `*T` a pointer, `[n]T` an array; blanks around a name at any level are ignored.
`byte` is another name of `u8`, and any other word of alphanumeric characters and underscores names
a struct.
-/

namespace FlatMachine

/-- The value of decimal digits, read from the left onto `acc`. -/
def decimal? (acc : Nat) : List Char → Option Nat
  | [] => some acc
  | c :: rest => if c.isDigit then decimal? (acc * 10 + (c.toNat - 48)) rest else none

namespace Ty

/-- An array length: decimal digits after an optional plus sign, below `2 ^ 32`. -/
def length? (cs : List Char) : Option UInt32 :=
  let digits := match cs with
    | '+' :: rest => rest
    | cs => cs
  if digits.isEmpty then none
  else (decimal? 0 digits).bind fun n =>
    if n ≤ Size.maxHandle then some (UInt32.ofNat n) else none

def isNameChar (c : Char) : Bool := Text.isAlphanumeric c || c == '_'

/-- The type that a single word names. -/
def ofWord? (word : String) : Option Ty :=
  match word with
  | "bool" => some bool
  | "i8" => some i8
  | "i16" => some i16
  | "i32" => some i32
  | "i64" => some i64
  | "u8" => some u8
  | "byte" => some u8
  | "u16" => some u16
  | "u32" => some u32
  | "u64" => some u64
  | "f32" => some f32
  | "f64" => some f64
  | "str" => some str
  | "" => none
  | name => if name.toList.all isNameChar then some (struct name) else none

/-- The part before the first `]` and the part after it. -/
def splitBracket? : List Char → Option (List Char × List Char)
  | [] => none
  | ']' :: rest => some ([], rest)
  | c :: rest => (splitBracket? rest).map fun (before, after) => (c :: before, after)

theorem length_of_splitBracket? {cs before after : List Char}
    (h : splitBracket? cs = some (before, after)) : after.length < cs.length := by
  fun_induction splitBracket? cs generalizing before after with
  | case1 => simp at h
  | case2 rest => simp_all
  | case3 c rest _ ih =>
      simp only [Option.map_eq_some_iff, Prod.mk.injEq] at h
      obtain ⟨⟨b, a⟩, hs, _, rfl⟩ := h
      have := ih hs
      simp only [List.length_cons]
      omega

/-- What remains behind the first characters of a trimmed text is shorter than the text. -/
theorem length_lt_of_trim {cs rest : List Char} {c : Char} (h : Text.trim cs = c :: rest) :
    rest.length < cs.length := by
  have hl := Text.length_trim_le cs
  rw [h, List.length_cons] at hl
  omega

/-- Reads a type name from its characters. -/
def ofChars? (cs : List Char) : Option Ty :=
  match h : Text.trim cs with
  | '[' :: ']' :: rest =>
    have : rest.length < cs.length := by
      have := length_lt_of_trim h
      simp only [List.length_cons] at this
      omega
    (ofChars? rest).map slice
  | '*' :: rest =>
    have := length_lt_of_trim h
    (ofChars? rest).map pointer
  | '[' :: rest =>
    match hs : splitBracket? rest with
    | none => none
    | some (before, after) =>
      have : after.length < cs.length :=
        Nat.lt_trans (length_of_splitBracket? hs) (length_lt_of_trim h)
      (length? before).bind fun length => (ofChars? after).map (array · length)
  | word => ofWord? (String.ofList word)
  termination_by cs.length

/-- Reads a type name. -/
def ofText? (text : String) : Option Ty := ofChars? text.toList

end Ty

end FlatMachine
