import FlatMachine.Native.Site

/-!
# Committing outputs

After the operator has succeeded, every staged output is resolved, encoded and checked against the
width of its place before anything is written. Then strings and slices are stored as new objects,
and last the outputs are written in order.
-/

namespace FlatMachine

/-- A checked output: bytes for a place, or an object whose handle goes there. -/
inductive Pending where
  | bytes (offset : Nat) (content : Bytes)
  | object (offset : Nat) (content : Bytes)
  deriving Inhabited

namespace Pending

/-- The bytes that will be written at the place. -/
def width : Pending → Nat
  | bytes _ content => content.length
  | object .. => Ty.handleWidth

/-- Staged contents for a place. A string or slice value becomes an object. -/
def ofStaged (place : Place) : Staged → Except Error Pending
  | .bytes content => .ok (.bytes place.offset content)
  | .value v => do
    let encoded ← v.encode place.ty
    match v with
    | .str _ | .slice _ => return .object place.offset encoded
    | _ => return .bytes place.offset encoded

/-- Stores the object, if there is one; yields what is to be written and where. -/
def settle : Pending → Action Arena (Nat × Bytes)
  | bytes offset content => return (offset, content)
  | object offset content => do
    let handle ← Arena.store content
    return (offset, ← Action.ofExcept (encodeHandle handle))

/-- Stores the objects in order. -/
def settleAll : List Pending → Action Arena (List (Nat × Bytes))
  | [] => return []
  | p :: rest => do
    let write ← p.settle
    return write :: (← settleAll rest)

end Pending

/-- Performs writes in order, up to the first that fails. -/
def writeAll : List (Nat × Bytes) → Action Arena Unit
  | [] => return ()
  | (offset, bytes) :: rest => do
    Action.update (·.write offset bytes)
    writeAll rest

namespace Site

/-- Checks what is staged for one output. -/
def prepare (s : Site) (a : Arena) (o : Operand) (staged : Staged) : Except Error Pending := do
  let place ← o.place s.structs a s.fp
  let pending ← Pending.ofStaged place staged
  if pending.width = place.size then return pending
  else .error (.typeMismatch s.name s!"{place.size} bytes for {place.ty.text}"
    (toString pending.width))

/-- Checks the staged outputs in order. -/
def prepareAll (s : Site) (a : Arena) : List Operand → Slots → Except Error (List Pending)
  | o :: os, some staged :: slots => do
    let pending ← s.prepare a o staged
    return pending :: (← s.prepareAll a os slots)
  | _ :: os, none :: slots => s.prepareAll a os slots
  | _, _ => .ok []

/-- Writes the staged outputs. -/
def commit (s : Site) (slots : Slots) : Action Arena Unit := do
  let pending ← Action.query fun a => s.prepareAll a s.node.outputs slots
  writeAll (← Pending.settleAll pending)

end Site

end FlatMachine
