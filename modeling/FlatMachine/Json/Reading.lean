/-!
# Reading JSON

Readers take what they need from the front of a text and yield the rest, or nothing if the text is
malformed. `skipValue?` passes over a value of any kind.
-/

namespace FlatMachine.Json

/-- What is read from the front of a text, and the rest. -/
abbrev Reader (α : Type) := List Char → Option (α × List Char)

/-- The blanks between tokens. -/
def isSpace (c : Char) : Bool := c == ' ' || c == '\n' || c == '\t' || c == '\r'

def skipSpace (cs : List Char) : List Char := cs.dropWhile isSpace

/-- The text behind a word that it has to start with. -/
def expect? : List Char → List Char → Option (List Char)
  | [], cs => some cs
  | _ :: _, [] => none
  | w :: word, c :: cs => if w = c then expect? word cs else none

/-- The value of a hexadecimal digit. -/
def hexDigit? (c : Char) : Option Nat :=
  if c.isDigit then some (c.toNat - 48)
  else if 'a' ≤ c && c ≤ 'f' then some (c.toNat - 87)
  else if 'A' ≤ c && c ≤ 'F' then some (c.toNat - 55)
  else none

def shortEscape? (c : Char) : Option Nat :=
  match c with
  | '"' => some 0x22
  | '\\' => some 0x5C
  | '/' => some 0x2F
  | 'b' => some 0x08
  | 'f' => some 0x0C
  | 'n' => some 0x0A
  | 'r' => some 0x0D
  | 't' => some 0x09
  | _ => none

/-- The code points of a string behind its opening quote; escaped surrogates are not joined. -/
def stringUnits? : Reader (List Nat)
  | [] => none
  | '"' :: rest => some ([], rest)
  | '\\' :: 'u' :: a :: b :: c :: d :: rest => do
    let unit := (((← hexDigit? a) * 16 + (← hexDigit? b)) * 16 + (← hexDigit? c)) * 16 +
      (← hexDigit? d)
    let (units, rest) ← stringUnits? rest
    return (unit :: units, rest)
  | '\\' :: e :: rest => do
    let unit ← shortEscape? e
    let (units, rest) ← stringUnits? rest
    return (unit :: units, rest)
  | c :: rest =>
    if c.toNat < 0x20 || c == '\\' then none
    else do
      let (units, rest) ← stringUnits? rest
      return (c.toNat :: units, rest)

def isHighSurrogate (n : Nat) : Bool := 0xD800 ≤ n && n ≤ 0xDBFF

def isLowSurrogate (n : Nat) : Bool := 0xDC00 ≤ n && n ≤ 0xDFFF

/-- The characters of code points in which every surrogate has its partner. -/
def joinUnits? : List Nat → Option (List Char)
  | [] => some []
  | [n] => if isHighSurrogate n || isLowSurrogate n then none else some [Char.ofNat n]
  | n :: m :: rest =>
    if isHighSurrogate n then
      if isLowSurrogate m then
        (joinUnits? rest).map (Char.ofNat (0x10000 + (n - 0xD800) * 1024 + (m - 0xDC00)) :: ·)
      else none
    else if isLowSurrogate n then none
    else (joinUnits? (m :: rest)).map (Char.ofNat n :: ·)

def string? : Reader String
  | '"' :: rest => do
    let (units, rest) ← stringUnits? rest
    return (String.ofList (← joinUnits? units), rest)
  | _ => none

def bool? : Reader Bool := fun cs =>
  match expect? "true".toList cs with
  | some rest => some (true, rest)
  | none => (expect? "false".toList cs).map (false, ·)

def digits (cs : List Char) : List Char × List Char := (cs.takeWhile Char.isDigit, cs.dropWhile Char.isDigit)

/-- An integer's digits: no zero in front of others. -/
def integerDigits? (cs : List Char) : Option (List Char × List Char) :=
  match digits cs with
  | ([], _) => none
  | ('0' :: _ :: _, _) => none
  | found => some found

/-- A natural number below a bound, written without fraction and exponent. -/
def natBelow? (bound : Nat) : Reader Nat := fun cs => do
  let (found, rest) ← integerDigits? cs
  let n := found.foldl (fun acc c => acc * 10 + (c.toNat - 48)) 0
  match rest with
  | '.' :: _ | 'e' :: _ | 'E' :: _ => none
  | rest => if n < bound then some (n, rest) else none

def skipDigits? (cs : List Char) : Option (List Char) :=
  match digits cs with
  | ([], _) => none
  | (_, rest) => some rest

/-- Passes over the exponent of a number, if there is one. -/
def skipExponent? : List Char → Option (List Char)
  | 'e' :: rest | 'E' :: rest =>
    match rest with
    | '+' :: rest | '-' :: rest => skipDigits? rest
    | rest => skipDigits? rest
  | cs => some cs

/-- Passes over a number. -/
def skipNumber? (cs : List Char) : Option (List Char) := do
  let unsigned := match cs with
    | '-' :: rest => rest
    | cs => cs
  let (_, rest) ← integerDigits? unsigned
  match rest with
  | '.' :: rest => skipExponent? (← skipDigits? rest)
  | rest => skipExponent? rest

mutual

/-- Passes over a value, in at most `fuel` nested or consecutive parts. -/
def skipWithin? : Nat → List Char → Option (List Char)
  | 0, _ => none
  | fuel + 1, cs =>
    match skipSpace cs with
    | '"' :: rest => (stringUnits? rest).map (·.2)
    | '[' :: rest =>
      match skipSpace rest with
      | ']' :: rest => some rest
      | rest => skipItems? fuel rest
    | '\x7b' :: rest =>
      match skipSpace rest with
      | '\x7d' :: rest => some rest
      | rest => skipMembers? fuel rest
    | 'n' :: rest => expect? "ull".toList rest
    | 't' :: rest => expect? "rue".toList rest
    | 'f' :: rest => expect? "alse".toList rest
    | rest => skipNumber? rest

/-- Passes over the items of an array and its end. -/
def skipItems? : Nat → List Char → Option (List Char)
  | 0, _ => none
  | fuel + 1, cs => do
    match skipSpace (← skipWithin? fuel cs) with
    | ']' :: rest => some rest
    | ',' :: rest => skipItems? fuel rest
    | _ => none

/-- Passes over the members of an object and its end. -/
def skipMembers? : Nat → List Char → Option (List Char)
  | 0, _ => none
  | fuel + 1, cs => do
    match skipSpace cs with
    | '"' :: rest =>
      let (_, rest) ← stringUnits? rest
      match skipSpace rest with
      | ':' :: rest =>
        match skipSpace (← skipWithin? fuel rest) with
        | '\x7d' :: rest => some rest
        | ',' :: rest => skipMembers? fuel rest
        | _ => none
      | _ => none
    | _ => none

end

/-- Passes over a value of any kind. A text has no more parts than twice its characters. -/
def skipValue? (cs : List Char) : Option (List Char) := skipWithin? (2 * cs.length + 2) cs

end FlatMachine.Json
