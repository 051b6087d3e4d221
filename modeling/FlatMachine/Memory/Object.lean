import FlatMachine.Memory.Arena

/-!
# Heap objects

A string or slice is an object: a four-byte count followed by the elements. Variables hold the
handle of the count; the nil handle stands for an empty object. Growing makes a new object and leaves
the old one as it was, so other handles keep seeing the old elements.
-/

namespace FlatMachine.Arena

/-- The number of elements of an object. -/
def objectLength (a : Arena) (handle : Nat) : Except Error Nat :=
  if handle = nilHandle then .ok 0 else a.readHandle handle

/-- The bytes of the elements, if they all lie in the allocated region. -/
def payload (a : Arena) (handle width : Nat) : Except Error Bytes :=
  if handle = nilHandle then .ok []
  else do
    let count ← a.objectLength handle
    let needed := objectSize count width
    let available := a.heapPointer - handle
    if available < needed then .error (.corruptSlice needed available)
    else a.read (handle + headerWidth) (count * width)

/-- The string or slice of an object. -/
def readObject (a : Arena) (handle : Nat) (ty : Ty) : Except Error Value :=
  match ty with
  | .str =>
    if handle = nilHandle then .ok (.str "")
    else do
      let count ← a.objectLength handle
      Ty.decode (LittleEndian.encode headerWidth count ++ (← a.payload handle 1)) .str
  | .slice elem => do
    let width ← elem.elementWidth
    if handle = nilHandle then return .slice []
    else
      let count ← a.objectLength handle
      Ty.decode (LittleEndian.encode headerWidth count ++ (← a.payload handle width)) (.slice elem)
  | other => .error (.typeMismatch "heap object" "str or slice" other.text)

def elementOffset (a : Arena) (handle : Nat) (index : Int) (width : Nat) : Except Error Nat := do
  let length ← a.objectLength handle
  if index < 0 ∨ (length : Int) ≤ index then .error (.indexOutOfRange index length)
  else return handle + headerWidth + index.toNat * width

def store (bytes : Bytes) : Action Arena Nat := do
  let handle ← Action.advance (·.allocate bytes.length)
  Action.update (·.write handle bytes)
  return handle

/-- A new object holding a string or slice. -/
def writeObject (value : Value) (ty : Ty) : Action Arena Nat := do
  let bytes ← Action.ofExcept (value.encode ty)
  store bytes

def newObject (count width : Nat) : Action Arena Nat := do
  let handle ← Action.advance (·.allocate (headerWidth + count * width))
  Action.update (·.writeHandle handle count)
  return handle

/-- A new object: the elements of an object followed by one more. -/
def appendElement (handle width : Nat) (element : Bytes) : Action Arena Nat := do
  if element.length ≠ width then
    throw (.invalidArguments "append"
      s!"element is {element.length} bytes, slice holds {width}")
  let old ← Action.query (·.payload handle width)
  let result ← newObject (old.length / width + 1) width
  Action.update (·.write (result + headerWidth) old)
  Action.update (·.write (result + headerWidth + old.length) element)
  return result

/-- A new object: the elements of one object followed by those of another. -/
def concatObjects (first second width : Nat) : Action Arena Nat := do
  let front ← Action.query (·.payload first width)
  let back ← Action.query (·.payload second width)
  let result ← newObject ((front.length + back.length) / width) width
  Action.update (·.write (result + headerWidth) (front ++ back))
  return result

/-- Overwrites the first elements of an object by those of another, as many as both have, and yields
their number. -/
def copyElements (dst src width : Nat) : Action Arena Nat := do
  let room ← Action.query (·.payload dst width)
  let given ← Action.query (·.payload src width)
  let count := min (room.length / max width 1) (given.length / max width 1)
  if 0 < count then
    Action.update (·.copy (src + headerWidth) (dst + headerWidth) (count * width))
  return count

end FlatMachine.Arena
