import FlatMachine.LittleEndian

/-!
# UTF-8

Text is stored as UTF-8. Reading bytes back never fails: each maximal piece that starts like a
well-formed sequence but is cut short, and each byte that starts none, becomes one U+FFFD.
-/

namespace FlatMachine.Utf8

def encode (text : String) : Bytes :=
  text.toList.flatMap String.utf8EncodeChar

/-- Stands for bytes that are no text. -/
def replacement : Char := Char.ofNat 0xFFFD

def isContinuation (b : UInt8) : Bool := 0x80 ≤ b && b ≤ 0xBF

/-- The second bytes that may follow a lead byte: no overlong form, surrogate or code point above
U+10FFFF starts this way. -/
def isSecond (lead b : UInt8) : Bool :=
  if lead == 0xE0 then 0xA0 ≤ b && b ≤ 0xBF
  else if lead == 0xED then 0x80 ≤ b && b ≤ 0x9F
  else if lead == 0xF0 then 0x90 ≤ b && b ≤ 0xBF
  else if lead == 0xF4 then 0x80 ≤ b && b ≤ 0x8F
  else isContinuation b

/-- The six low bits of a continuation byte. -/
def tailBits (b : UInt8) : Nat := b.toNat - 0x80

/-- The characters that the bytes spell, with `replacement` for every ill-formed piece. -/
def decode : Bytes → List Char
  | [] => []
  | a :: rest =>
    if a < 0x80 then Char.ofNat a.toNat :: decode rest
    else if a < 0xC2 || 0xF4 < a then replacement :: decode rest
    else match rest with
      | [] => [replacement]
      | b :: rest' =>
        if !isSecond a b then replacement :: decode (b :: rest')
        else if a < 0xE0 then
          Char.ofNat ((a.toNat - 0xC0) * 64 + tailBits b) :: decode rest'
        else match rest' with
          | [] => [replacement]
          | c :: rest'' =>
            if !isContinuation c then replacement :: decode (c :: rest'')
            else if a < 0xF0 then
              Char.ofNat ((a.toNat - 0xE0) * 4096 + tailBits b * 64 + tailBits c) :: decode rest''
            else match rest'' with
              | [] => [replacement]
              | d :: rest''' =>
                if !isContinuation d then replacement :: decode (d :: rest''')
                else
                  Char.ofNat ((a.toNat - 0xF0) * 262144 + tailBits b * 4096 + tailBits c * 64 +
                    tailBits d) :: decode rest'''

def decodeText (bytes : Bytes) : String := String.ofList (decode bytes)

end FlatMachine.Utf8
