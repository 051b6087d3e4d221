import FlatMachine.Code.Node
import FlatMachine.LittleEndian

/-!
# Callbacks

Host libraries do not run program code themselves: they queue callbacks, which the machine runs
between two nodes. A queue is a list with the oldest callback first.
-/

namespace FlatMachine

/-- A function to be called, with its arguments encoded. -/
structure Callback where
  function : FunctionName
  args : List Bytes
  deriving DecidableEq, Inhabited

end FlatMachine
