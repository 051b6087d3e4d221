import FlatMachine.Text.Quoted
import FlatMachine.Value.Basic

/-!
# The text of a value

Numbers in decimal, strings quoted, slices as their items between brackets, addresses after `&`.
-/

namespace FlatMachine.Value

mutual

/-- How a value is shown. -/
def text : Value → String
  | bool b => if b then "true" else "false"
  | int kind word => toString (kind.toInt word)
  | float kind word => kind.text word
  | str s => Text.quoted s
  | slice items => "[" ++ " ".intercalate (texts items) ++ "]"
  | pointer offset => s!"&{offset}"

/-- How each of the values is shown. -/
def texts : List Value → List String
  | [] => []
  | v :: rest => v.text :: texts rest

end

end FlatMachine.Value
