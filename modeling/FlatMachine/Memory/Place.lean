import FlatMachine.Code.Operand
import FlatMachine.Memory.Object

/-!
# Places

An operand leads to a place: an offset, a type and a width. Its chain is followed anew on every use.
Handles and indexes are checked on the way, so an operand that fails to lead anywhere has touched
nothing.
-/

namespace FlatMachine

/-- Where a value lies. -/
structure Place where
  offset : Nat
  ty : Ty
  size : Nat
  deriving DecidableEq, Inhabited

/-- The address held at an offset, unless it is nil. -/
def Arena.follow (a : Arena) (name : String) (offset : Nat) : Except Error Nat := do
  let handle ← a.readHandle offset
  if handle = nilHandle then .error (.nullPointer name) else return handle

def checkIndex (index : Int) (length : Nat) : Except Error Unit :=
  if index < 0 ∨ (length : Int) ≤ index then .error (.indexOutOfRange index length) else .ok ()

mutual

/-- The place an operand leads to in the frame at `fp`. -/
def Operand.place (structs : StructTable) (a : Arena) (fp : Nat) : Operand → Except Error Place
  | { name, ty, storage, chain, .. } => do
    let start ← match storage with
      | .frame offset => .ok (fp + offset)
      | .global offset => .ok offset
      | .unassigned => .error (.unresolvedSymbol name)
    let (offset, ty) ← followChain structs a fp name start ty chain
    return ⟨offset, ty, ← ty.size structs⟩

/-- Follows the accesses from a value of a type at an offset; `name` is that of the symbol. -/
def followChain (structs : StructTable) (a : Arena) (fp : Nat) (name : String) (offset : Nat)
    (ty : Ty) : List Access → Except Error (Nat × Ty)
  | [] => .ok (offset, ty)
  | access :: rest => do
    let (offset, ty) ← access.follow structs a fp name offset ty
    followChain structs a fp name offset ty rest

def Access.follow (structs : StructTable) (a : Arena) (fp : Nat) (name : String) (offset : Nat)
    (ty : Ty) : Access → Except Error (Nat × Ty)
  | .pointer =>
    match ty with
    | .pointer target => return (← a.follow name offset, target)
    | other => .error (.typeMismatch "dereference" "a pointer" other.text)
  | .index source => do
    let (offset, ty) ← match ty with
      | .pointer target => pure (← a.follow name offset, target)
      | ty => pure (offset, ty)
    let index ← source.value structs a fp
    match ty with
    | .array elem length =>
      checkIndex index length.toNat
      return (offset + index.toNat * (← elem.size structs), elem)
    | .slice elem =>
      let handle ← a.readHandle offset
      let length ← a.objectLength handle
      checkIndex index length
      return (handle + headerWidth + index.toNat * (← elem.size structs), elem)
    | other => .error (.typeMismatch "index" "an array or slice" other.text)
  | .field ref => do
    let (offset, ty) ← match ty with
      | .pointer (.struct struct) => pure (← a.follow name offset, Ty.struct struct)
      | ty => pure (offset, ty)
    match ty with
    | .struct struct =>
      if ref.ty.isDefined then return (offset + ref.offset, ref.ty)
      else
        let field ← structs.field struct ref.name
        return (offset + field.offset, field.ty)
    | other => .error (.typeMismatch s!"field access .{ref.name}" "a struct" other.text)

def Index.value (structs : StructTable) (a : Arena) (fp : Nat) : Index → Except Error Int
  | .const n => .ok n
  | .operand source => do
    let place ← source.place structs a fp
    if !place.ty.isInteger then
      .error (.typeMismatch "index" "an integer" place.ty.text)
    else
      match (← place.ty.decode (← a.read place.offset place.size)).toInt64? with
      | some n => return n
      | none => .error (.typeMismatch "index" "an integer" place.ty.text)

end

/-- The value at the place an operand leads to; a string or slice is read through its handle. -/
def Operand.value (structs : StructTable) (a : Arena) (fp : Nat) (o : Operand) :
    Except Error Value := do
  let place ← o.place structs a fp
  match place.ty with
  | .str | .slice _ => a.readObject (← a.readHandle place.offset) place.ty
  | ty => ty.decode (← a.read place.offset place.size)

/-- The bytes an operand stands for: those at its place, or the address of the place for an operand
by reference. -/
def Operand.bytes (structs : StructTable) (a : Arena) (fp : Nat) (o : Operand) :
    Except Error Bytes := do
  let place ← o.place structs a fp
  if o.byReference then encodeHandle place.offset else a.read place.offset place.size

end FlatMachine
