/-!
# JSON documents

Documents as data, and their text with an indentation of two spaces for every level.
-/

namespace FlatMachine

/-- A JSON document without fractional numbers. -/
inductive Json where
  | null
  | bool (b : Bool)
  | int (n : Int)
  | str (text : String)
  | array (items : List Json)
  | object (members : List (String × Json))
  deriving Inhabited

namespace Json

/-- A number that is not negative. -/
def nat (n : Nat) : Json := int n

/-- An object with one member. -/
def tagged (tag : String) (content : Json) : Json := object [(tag, content)]

/-- A character inside a string: quotes, backslashes and controls are escaped. -/
def quotedChar (c : Char) : List Char :=
  match c with
  | '"' => ['\\', '"']
  | '\\' => ['\\', '\\']
  | '\x08' => ['\\', 'b']
  | '\x0c' => ['\\', 'f']
  | '\n' => ['\\', 'n']
  | '\r' => ['\\', 'r']
  | '\t' => ['\\', 't']
  | c =>
    if c.toNat < 0x20 then
      ['\\', 'u', '0', '0', Nat.digitChar (c.toNat / 16), Nat.digitChar (c.toNat % 16)]
    else [c]

def quoted (text : String) : String :=
  String.ofList (['"'] ++ text.toList.flatMap quotedChar ++ ['"'])

/-- The start of a line. -/
def newline (depth : Nat) : String := "\n" ++ String.ofList (List.replicate (2 * depth) ' ')

/-- Items between brackets, each on a line of its own. -/
def block (left right : String) (depth : Nat) (items : List String) : String :=
  match items with
  | [] => left ++ right
  | items =>
    left ++ ",".intercalate (items.map (newline (depth + 1) ++ ·)) ++ newline depth ++ right

mutual

/-- The text of a document whose first line is already indented. -/
def prettyAt (depth : Nat) : Json → String
  | null => "null"
  | bool b => if b then "true" else "false"
  | int n => toString n
  | str text => quoted text
  | array items => block "[" "]" depth (prettyItems (depth + 1) items)
  | object members => block "\x7b" "\x7d" depth (prettyMembers (depth + 1) members)

def prettyItems (depth : Nat) : List Json → List String
  | [] => []
  | item :: rest => item.prettyAt depth :: prettyItems depth rest

def prettyMembers (depth : Nat) : List (String × Json) → List String
  | [] => []
  | (key, content) :: rest =>
    (quoted key ++ ": " ++ content.prettyAt depth) :: prettyMembers depth rest

end

/-- The text of a document. -/
def pretty (j : Json) : String := j.prettyAt 0

end Json

end FlatMachine
