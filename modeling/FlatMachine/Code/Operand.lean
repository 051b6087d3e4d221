import FlatMachine.StructTable

/-!
# Operands

An operand says how to find a value: the storage and declared type of a symbol, and a chain of
accesses followed from there, left to right. Lowering creates operands without storage; the frame
layout binds them.
-/

namespace FlatMachine

/-- Where the symbol of an operand lies. -/
inductive Storage where
  /-- Not bound yet. -/
  | unassigned
  /-- Distance from the frame pointer. -/
  | frame (offset : Nat)
  /-- Address in the data segment. -/
  | global (offset : Nat)
  deriving DecidableEq, Inhabited

/-- A field access. Once linked it carries the field's offset and type; until then the type is
undefined. -/
structure FieldRef where
  name : String
  offset : Nat := 0
  ty : Ty := .undefined
  deriving DecidableEq, Inhabited

mutual

/-- One step of a chain. -/
inductive Access where
  /-- Moves to the address held here. -/
  | pointer
  /-- Moves to an element of an array or slice. -/
  | index (by_ : Index)
  /-- Moves to a field of a struct. -/
  | field (ref : FieldRef)

/-- The index of an element access. -/
inductive Index where
  | const (value : Int)
  /-- Read when the chain is followed. -/
  | operand (source : Operand)

/-- A symbol and the accesses that lead from it to a value. -/
structure Operand where
  name : String
  /-- Declared type of the symbol. -/
  ty : Ty := .undefined
  storage : Storage := .unassigned
  chain : List Access := []
  /-- As an input: the operator receives the address of the value. -/
  byReference : Bool := false
  /-- A declared pointer whose target is allocated on declaration. -/
  escapes : Bool := false
  /-- The outermost output of the literal `&T` with fields. -/
  literalPointer : Bool := false
  /-- The struct that an initialised field belongs to. -/
  structName : Option String := none
  /-- Declared before; not to be declared again. -/
  declared : Bool := false
  /-- Declared with `:=`. -/
  shortDeclared : Bool := false
  location : Location := {}
  package : String := ""

end

instance : Inhabited Operand := ⟨{ name := "" }⟩

instance : Inhabited Access := ⟨.pointer⟩

instance : Inhabited Index := ⟨.const 0⟩

/-- The type reached by one access. Slices, pointers to arrays and slices, and pointers to structs
are followed implicitly. -/
def Ty.step (structs : StructTable) (ty : Ty) (access : Access) : Except Error Ty :=
  match access, ty with
  | .pointer, .pointer target => .ok target
  | .pointer, other => .error (.typeMismatch "dereference" "a pointer" other.text)
  | .index _, .array elem _ => .ok elem
  | .index _, .slice elem => .ok elem
  | .index _, .pointer target =>
    match target.element? with
    | some elem => .ok elem
    | none => .error (.typeMismatch "index" "an array or slice" (Ty.pointer target).text)
  | .index _, other => .error (.typeMismatch "index" "an array or slice" other.text)
  | .field ref, .struct name => return (← structs.field name ref.name).ty
  | .field ref, .pointer (.struct name) => return (← structs.field name ref.name).ty
  | .field ref, other => .error (.typeMismatch s!"field access .{ref.name}" "a struct" other.text)

namespace Operand

/-- The type at the end of a chain that starts at a type. -/
def chainTy (structs : StructTable) : Ty → List Access → Except Error Ty
  | ty, [] => .ok ty
  | ty, access :: rest => do chainTy structs (← ty.step structs access) rest

/-- The types along a chain, from the one it starts at to that of the value. -/
def chainTypes (structs : StructTable) (ty : Ty) : List Access → Except Error (List Ty)
  | [] => .ok [ty]
  | access :: rest => return ty :: (← chainTypes structs (← ty.step structs access) rest)

/-- The type of the value that the operand leads to. -/
def valueTy (structs : StructTable) (o : Operand) : Except Error Ty := chainTy structs o.ty o.chain

/-- Names a symbol itself. -/
def isPlain (o : Operand) : Bool := o.chain.isEmpty

end Operand

end FlatMachine
