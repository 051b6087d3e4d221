import FlatMachine.Json.Basic
import FlatMachine.Options

/-!
# Options as JSON

Options as an object with all fields, in the form in which they are read.
-/

namespace FlatMachine.Options

def toJson (o : Options) : Json :=
  .object [("stack_size", .nat o.stackSize), ("initial_heap_size", .nat o.initialHeapSize),
    ("max_memory", .nat o.maxMemory), ("max_call_depth", .nat o.maxCallDepth),
    ("rng_seed", (o.rngSeed.map Json.nat).getD .null), ("trace_execution", .bool o.traceExecution),
    ("entry_package", .str o.entryPackage), ("entry_function", .str o.entryFunction)]

end FlatMachine.Options
