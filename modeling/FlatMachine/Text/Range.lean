/-!
# Ranges of characters

A property of characters is given by a list of closed ranges of code points in ascending order.
-/

namespace FlatMachine.Text

/-- Closed ranges of code points. -/
abbrev Ranges := List (Nat × Nat)

/-- The code point lies in one of the ranges. -/
def Ranges.contains (ranges : Ranges) (code : Nat) : Bool :=
  ranges.any fun range => decide (range.1 ≤ code) && decide (code ≤ range.2)

end FlatMachine.Text
