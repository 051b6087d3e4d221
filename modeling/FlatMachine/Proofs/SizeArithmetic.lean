import FlatMachine.Options
import FlatMachine.Proofs.Allocation

/-!
# Sums of sizes

A range, an allocation and a move are checked with sums that cannot wrap, so that what does not fit
is refused. The initial layout and the new end of the latest allocation are plain sums. A layout is
judged rightly as long as it is a size; a longer one is never laid out in order, but where plain
sums wrap it can be accepted all the same. The new end of the latest allocation stops the program if
it is no size.
-/

namespace FlatMachine

open FlatMachine.Action

namespace Options

variable {o : Options} {dataSize : Nat} {overflow : Overflow}

/-- What the options say about memory are sizes. -/
structure Sized (o : Options) : Prop where
  stackSize_le : o.stackSize ≤ Size.max
  initialHeapSize_le : o.initialHeapSize ≤ Size.max
  maxMemory_le : o.maxMemory ≤ Size.max

end Options

namespace Arena

variable {a b : Arena} {data : Bytes} {stackSize heapSize limit stop : Nat} {overflow : Overflow}

end Arena

end FlatMachine
