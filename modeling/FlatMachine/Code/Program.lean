import FlatMachine.Code.Node
import FlatMachine.Memory.Arena

/-!
# Programs

A draft collects struct layouts, globals, literals and functions. It becomes a program when every
declared function has a body. Globals and literals are placed in the data segment one after another.
-/

namespace FlatMachine

/-- A function with its frame laid out. -/
structure Function where
  package : String
  name : String
  /-- Parameters, bound to the frame. -/
  params : List Operand := []
  /-- Result slots, bound to the frame. -/
  returns : List Operand := []
  body : List Node := []
  /-- Bytes of stack that a call takes. -/
  frameSize : Nat := 0
  deriving Inhabited

namespace Function

def reference (f : Function) : FunctionName := ⟨f.package, f.name⟩

/-- The types of the parameters and results. -/
def signature (f : Function) : Signature :=
  .of (f.params.map (·.ty)) (f.returns.map (·.ty))

end Function

/-- The functions and globals that go by names, the latest entry of a name first. -/
structure Program where
  structs : StructTable := {}
  /-- Initial data segment. -/
  data : Bytes := []
  globals : List Operand := []
  functions : List Function := []
  deriving Inhabited

namespace Program

def function? (p : Program) (f : FunctionName) : Option Function :=
  p.functions.find? (·.reference == f)

def function (p : Program) (f : FunctionName) : Except Error Function :=
  match p.function? f with
  | some function => .ok function
  | none => .error (.unresolvedSymbol f.text)

def global? (p : Program) (package name : String) : Option Operand :=
  p.globals.find? fun o => o.package == package && o.name == name

def functionCount (p : Program) : Nat := p.functions.length

end Program

/-- A program under construction. -/
structure Draft where
  structs : StructTable := {}
  data : Bytes := List.replicate nilGuard 0
  globals : List Operand := []
  /-- The declared signatures, the latest of a name first. -/
  signatures : List (FunctionName × Signature) := []
  functions : List Function := []
  /-- Literals asked for so far. -/
  literalCount : Nat := 0
  deriving Inhabited

namespace Draft

def defineStruct (d : Draft) (name : String) (fields : List (String × Ty)) :
    Except Error (StructDef × Draft) := do
  let (s, structs) ← d.structs.define name fields
  return (s, { d with structs })

def global? (d : Draft) (package name : String) : Option Operand :=
  d.globals.find? fun o => o.package == package && o.name == name

/-- Reserves a zeroed global. -/
def addGlobal (d : Draft) (package name : String) (ty : Ty) : Except Error (Operand × Draft) := do
  let size ← ty.size d.structs
  let o : Operand := { name, ty, storage := .global d.data.length, package, declared := true }
  return (o, { d with data := d.data ++ List.replicate size 0, globals := o :: d.globals })

/-- The bytes that a literal adds to the data segment when it is stored from `start` on, and the
offset at which the operand finds it. A string or slice is stored as its object followed by a
handle, and the operand leads to the handle. -/
def literalBytes (start : Nat) (value : Value) (ty : Ty) : Except Error (Bytes × Nat) := do
  let bytes ← value.encode ty
  match ty with
  | .str | .slice _ => return (bytes ++ (← encodeHandle start), start + bytes.length)
  | _ => return (bytes, start)

/-- Stores a literal under a fresh name; the name is used up even if the value is not one of the
type. -/
def addLiteral (value : Value) (ty : Ty) : Action Draft Operand := fun d =>
  let counted := { d with literalCount := d.literalCount + 1 }
  match literalBytes d.data.length value ty with
  | .error e => .error e counted
  | .ok (bytes, offset) =>
    .ok { name := s!"$lit{d.literalCount}", ty, storage := .global offset, declared := true }
      { counted with data := d.data ++ bytes }

def declareFunction (d : Draft) (f : FunctionName) (signature : Signature) : Draft :=
  { d with signatures := (f, signature) :: d.signatures.filter (·.1 != f) }

/-- Adds a function, in place of an earlier one of that name. -/
def addFunction (d : Draft) (f : Function) : Draft :=
  { d.declareFunction f.reference f.signature with
    functions := f :: d.functions.filter (·.reference != f.reference) }

def callOperator (d : Draft) (f : FunctionName) : Except Error Operator :=
  match d.signatures.find? (·.1 == f) with
  | some (_, signature) => .ok (.call f signature)
  | none => .error (.unresolvedSymbol f.text)

/-- The program, if every declared function has a body. -/
def build (d : Draft) : Except Error Program :=
  match d.signatures.find? fun (f, _) => !d.functions.any (·.reference == f) with
  | some (f, _) => .error (.unresolvedSymbol f.text)
  | none => .ok {
      structs := d.structs, data := d.data, globals := d.globals, functions := d.functions }

end Draft

end FlatMachine
