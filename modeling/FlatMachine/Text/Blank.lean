/-!
# Blank characters

The characters with the Unicode property `White_Space`, and removing them at both ends of a text.
-/

namespace FlatMachine.Text

/-- White space. -/
def isBlank (c : Char) : Bool :=
  let n := c.toNat
  (9 ≤ n && n ≤ 13) || n == 0x20 || n == 0x85 || n == 0xA0 || n == 0x1680 ||
    (0x2000 ≤ n && n ≤ 0x200A) || n == 0x2028 || n == 0x2029 || n == 0x202F || n == 0x205F ||
    n == 0x3000

/-- Drops the blanks at the start. -/
def trimStart (cs : List Char) : List Char := cs.dropWhile isBlank

/-- Drops the blanks at the end. -/
def trimEnd (cs : List Char) : List Char := (cs.reverse.dropWhile isBlank).reverse

/-- Drops the blanks at both ends. -/
def trim (cs : List Char) : List Char := trimEnd (trimStart cs)

theorem length_trim_le (cs : List Char) : (trim cs).length ≤ cs.length := by
  have hs := (List.dropWhile_suffix isBlank (l := cs)).length_le
  have he := (List.dropWhile_suffix isBlank (l := (cs.dropWhile isBlank).reverse)).length_le
  simp only [trim, trimEnd, trimStart, List.length_reverse] at *
  omega

end FlatMachine.Text
