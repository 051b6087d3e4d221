import FlatMachine.Json.Reading
import FlatMachine.Options

/-!
# Options from JSON

Options are an object whose members may be missing, or an array of the fields in order that may stop
early. Missing fields have their defaults. Other members of the object are passed over; a field given
twice is refused.
-/

namespace FlatMachine.Options

open Json

def fieldNames : List String :=
  ["stack_size", "initial_heap_size", "max_memory", "max_call_depth", "rng_seed",
   "trace_execution", "entry_package", "entry_function"]

def size? : Reader Nat := natBelow? (1 <<< 64)

/-- The seed, or `null` for none. -/
def seed? : Reader (Option Nat) := fun cs =>
  match cs with
  | 'n' :: rest => (expect? "ull".toList rest).map (none, ·)
  | cs => (size? cs).map fun (n, rest) => (some n, rest)

def field? (o : Options) (index : Nat) : Reader Options := fun cs =>
  let cs := skipSpace cs
  match index with
  | 0 => (size? cs).map fun (n, rest) => ({ o with stackSize := n }, rest)
  | 1 => (size? cs).map fun (n, rest) => ({ o with initialHeapSize := n }, rest)
  | 2 => (size? cs).map fun (n, rest) => ({ o with maxMemory := n }, rest)
  | 3 => (size? cs).map fun (n, rest) => ({ o with maxCallDepth := n }, rest)
  | 4 => (seed? cs).map fun (seed, rest) => ({ o with rngSeed := seed }, rest)
  | 5 => (bool? cs).map fun (b, rest) => ({ o with traceExecution := b }, rest)
  | 6 => (string? cs).map fun (s, rest) => ({ o with entryPackage := s }, rest)
  | 7 => (string? cs).map fun (s, rest) => ({ o with entryFunction := s }, rest)
  | _ => none

/-- Reads the members of an object and its end, in at most `fuel` members; `seen` are the numbers of
the fields already given. -/
def members? (o : Options) (seen : List Nat) : Nat → Reader Options
  | 0, _ => none
  | fuel + 1, cs => do
    let (key, rest) ← string? (skipSpace cs)
    match skipSpace rest with
    | ':' :: rest =>
      let (o, seen, rest) ← match fieldNames.findIdx? (· == key) with
        | some index =>
          if seen.contains index then none
          else (o.field? index rest).map fun (o, rest) => (o, index :: seen, rest)
        | none => (skipValue? rest).map fun rest => (o, seen, rest)
      match skipSpace rest with
      | ',' :: rest => members? o seen fuel rest
      | '\x7d' :: rest => some (o, rest)
      | _ => none
    | _ => none

/-- Reads the items of an array and its end, in at most `fuel` items; `index` is the number of the
next field. -/
def items? (o : Options) (index : Nat) : Nat → Reader Options
  | 0, _ => none
  | fuel + 1, cs => do
    let (o, rest) ← o.field? index cs
    match skipSpace rest with
    | ',' :: rest => items? o (index + 1) fuel rest
    | ']' :: rest => some (o, rest)
    | _ => none

def ofChars? (cs : List Char) : Option Options := do
  let (o, rest) ← match skipSpace cs with
    | '\x7b' :: rest =>
      match skipSpace rest with
      | '\x7d' :: rest => some ({}, rest)
      | rest => members? {} [] cs.length rest
    | '[' :: rest =>
      match skipSpace rest with
      | ']' :: rest => some ({}, rest)
      | rest => items? {} 0 cs.length rest
    | _ => none
  if (skipSpace rest).isEmpty then some o else none

def ofJson? (text : String) : Option Options := ofChars? text.toList

/-- Reads options from a JSON text and checks them. -/
def ofJson (text : String) (overflow : Overflow := .stops) : Except Error Options := do
  match ofJson? text with
  | none => .error (.config "the text describes no options")
  | some o =>
    o.validate overflow
    return o

end FlatMachine.Options
