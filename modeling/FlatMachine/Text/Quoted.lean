import FlatMachine.Text.Printable

/-!
# Quoted text

Text that appears inside a message stands between double quotes. A quote, a backslash, NUL, tab,
newline and carriage return have two-character escapes; any other character that is not printable is
written as `\u` with its code point in braces, in lower-case hexadecimal.
-/

namespace FlatMachine.Text

def quotedChar (c : Char) : List Char :=
  match c with
  | '"' => ['\\', '"']
  | '\\' => ['\\', '\\']
  | '\x00' => ['\\', '0']
  | '\t' => ['\\', 't']
  | '\n' => ['\\', 'n']
  | '\r' => ['\\', 'r']
  | c =>
    if isPrintable c then [c]
    else ['\\', 'u', '\x7b'] ++ Nat.toDigits 16 c.toNat ++ ['\x7d']

/-- The text between double quotes, escaped. -/
def quoted (text : String) : String :=
  String.ofList (['"'] ++ text.toList.flatMap quotedChar ++ ['"'])

end FlatMachine.Text
