import FlatMachine.Memory.Arena

/-!
# Options

The sizes and limits of a machine, and the function it starts with.
-/

namespace FlatMachine

/-- How a machine is set up. -/
structure Options where
  /-- Bytes for call frames. -/
  stackSize : Nat := 1048576
  /-- Heap bytes reserved at the start. -/
  initialHeapSize : Nat := 65536
  /-- Ceiling of the whole arena. -/
  maxMemory : Nat := 268435456
  /-- Largest number of frames. -/
  maxCallDepth : Nat := 4096
  /-- Seed of the random generator. -/
  rngSeed : Option Nat := none
  traceExecution : Bool := false
  entryPackage : String := "main"
  entryFunction : String := "main"
  deriving DecidableEq, Inhabited

namespace Options

/-- The bytes that the arena takes at the start. -/
def initialLayout (o : Options) (dataSize : Nat) : Nat := dataSize + o.stackSize + o.initialHeapSize

/-- The options describe a usable arena for a data segment of that size. The initial layout is a
plain sum. -/
def validateFor (o : Options) (dataSize : Nat) (overflow : Overflow := .stops) :
    Except Error Unit := do
  if o.stackSize = 0 then .error (.config "stack_size must be greater than zero")
  else if o.maxCallDepth = 0 then .error (.config "max_call_depth must be greater than zero")
  else
    let initial ← Size.plain overflow (o.initialLayout dataSize)
    if o.maxMemory < initial then
      .error (.config
        s!"max_memory ({o.maxMemory}) is below the initial layout ({initial} bytes)")
    else .ok ()

/-- The options describe a usable arena without data. -/
def validate (o : Options) (overflow : Overflow := .stops) : Except Error Unit :=
  o.validateFor nilGuard overflow

end Options

end FlatMachine
