import FlatMachine.Error
import FlatMachine.Size
import FlatMachine.Ty.Basic

/-!
# Struct layouts and sizes

Fields are packed in the order of declaration. A struct may hold another by value only if that one
was defined before it, so every defined struct has a size, and a size never changes afterwards.
-/

namespace FlatMachine

/-- A field and its distance from the start of the struct. -/
structure Field where
  name : String
  ty : Ty
  offset : Nat
  deriving DecidableEq, Inhabited

/-- A laid-out struct. -/
structure StructDef where
  name : String
  fields : List Field
  size : Nat
  deriving DecidableEq, Inhabited

def StructDef.field (d : StructDef) (name : String) : Except Error Field :=
  match d.fields.find? (·.name == name) with
  | some field => .ok field
  | none => .error (.unresolvedSymbol s!"{d.name}.{name}")

/-- The known structs, the latest definition first. -/
structure StructTable where
  defs : List StructDef := []
  deriving Inhabited

namespace StructTable

def empty : StructTable := {}

def get? (t : StructTable) (name : String) : Option StructDef :=
  t.defs.find? (·.name == name)

def has (t : StructTable) (name : String) : Bool := (t.get? name).isSome

def get (t : StructTable) (name : String) : Except Error StructDef :=
  match t.get? name with
  | some d => .ok d
  | none => .error (.unresolvedSymbol s!"struct {name}")

def field (t : StructTable) (struct name : String) : Except Error Field := do
  (← t.get struct).field name

end StructTable

namespace Ty

/-- The size of a type whose size does not depend on a struct. -/
def fixedSize? : Ty → Option Nat
  | bool => some 1
  | int kind => some kind.bytes
  | float kind => some kind.bytes
  | str | slice _ | pointer _ => some handleWidth
  | array elem length => elem.fixedSize?.bind (Size.mul? · length.toNat)
  | struct _ | undefined => none

/-- The size of a type in bytes. -/
def size (structs : StructTable) : Ty → Except Error Nat
  | bool => .ok 1
  | int kind => .ok kind.bytes
  | float kind => .ok kind.bytes
  | str | slice _ | pointer _ => .ok handleWidth
  | ty@(array elem length) => do
    match Size.mul? (← elem.size structs) length.toNat with
    | some total => .ok total
    | none => .error (.invalidArguments "layout" s!"size of {ty.text} overflows")
  | struct name => return (← structs.get name).size
  | undefined => .error (.typeMismatch "layout" "a sized type" undefined.text)

end Ty

namespace StructTable

/-- Places the fields one after another from `offset`; the second part is the end of the last. -/
def place (t : StructTable) (struct : String) :
    Nat → List (String × Ty) → Except Error (List Field × Nat)
  | offset, [] => .ok ([], offset)
  | offset, (name, ty) :: rest => do
    let size ← ty.size t
    match Size.add? offset size with
    | none => .error (.invalidArguments "layout" s!"size of struct {struct} overflows")
    | some next =>
      let (fields, total) ← t.place struct next rest
      return (⟨name, ty, offset⟩ :: fields, total)

/-- Lays out a struct and adds it; a name is defined once. -/
def define (t : StructTable) (name : String) (fields : List (String × Ty)) :
    Except Error (StructDef × StructTable) :=
  if t.has name then
    .error (.invalidArguments "struct definition" s!"struct {name} is already defined")
  else do
    let (placed, size) ← t.place name 0 fields
    let d : StructDef := ⟨name, placed, size⟩
    return (d, { defs := d :: t.defs })

end StructTable

end FlatMachine
