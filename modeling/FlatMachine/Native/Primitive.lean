import FlatMachine.Native.Commit
import FlatMachine.Random
import FlatMachine.Window.Registry

/-!
# Primitive operators

A primitive has a name, a signature and a body. The body of most only computes outputs from inputs;
the others also act on the memory, the random generator or the host. Primitives are registered in a
table, and nodes refer to them by the codes of their places in it.
-/

namespace FlatMachine

/-- What lies outside the memory: windows, and the callbacks waiting to be run. -/
structure Host where
  windows : Window.Registry := {}
  callbacks : List Callback := []
  deriving Inhabited

/-- All that a primitive can act on. -/
structure Workspace where
  arena : Arena
  random : Random
  host : Host := {}
  deriving Inhabited

/-- Stages outputs from what the inputs hold. -/
abbrev Compute := Site → Arena → Except Error Slots

/-- What a primitive does. -/
inductive Body where
  | compute (run : Compute)
  | act (run : Site → Action Workspace Slots)

/-- A named operator. -/
structure Primitive where
  name : String
  signature : Signature
  body : Body

namespace Workspace

def onArena {α : Type} (act : Action Arena α) : Action Workspace α :=
  act.within arena fun a w => { w with arena := a }

def look {α : Type} (f : Arena → Except Error α) : Action Workspace α :=
  Action.query fun w => f w.arena

end Workspace

/-- Runs the body and yields what it staged. -/
def Body.run (body : Body) (s : Site) : Action Workspace Slots :=
  match body with
  | compute run => Workspace.look (run s)
  | act run => run s

/-- Runs a primitive and commits its outputs. -/
def Primitive.execute (p : Primitive) (s : Site) : Action Workspace Unit := do
  let slots ← p.body.run s
  Workspace.onArena (s.commit slots)

/-- The code of a position in a table. Codes are 32 bits wide: of a position that takes more, the low
bits are kept. -/
def codeAt (position : Nat) : Nat := position % UInt32.size

/-- The registered primitives and the codes of their names. -/
structure PrimitiveTable where
  /-- The primitives in the order of their codes. -/
  entries : List Primitive := []
  /-- The codes of the names in the order in which they were given out. -/
  codes : List (String × Nat) := entries.zipIdx.map fun (p, i) => (p.name, codeAt i)

namespace PrimitiveTable

def empty : PrimitiveTable := {}

def count (t : PrimitiveTable) : Nat := t.entries.length

def code? (t : PrimitiveTable) (name : String) : Option Nat := t.codes.lookup name

def has (t : PrimitiveTable) (name : String) : Bool := (t.code? name).isSome

def code (t : PrimitiveTable) (name : String) : Except Error Nat :=
  match t.code? name with
  | some code => .ok code
  | none => .error (.unresolvedSymbol s!"opcode {name}")

def get (t : PrimitiveTable) (code : Nat) : Except Error Primitive :=
  match t.entries[code]? with
  | some p => .ok p
  | none => .error (.unresolvedSymbol s!"opcode #{code}")

theorem code_eq_ok {t : PrimitiveTable} {name : String} {code : Nat} :
    t.code name = .ok code ↔ t.code? name = some code := by
  unfold PrimitiveTable.code
  cases t.code? name <;> simp

theorem get_eq_ok {t : PrimitiveTable} {code : Nat} {p : Primitive} :
    t.get code = .ok p ↔ t.entries[code]? = some p := by
  unfold PrimitiveTable.get
  cases t.entries[code]? <;> simp

/-- The operator of a node that applies the primitive of that name. -/
def operator (t : PrimitiveTable) (name : String) : Except Error Operator := do
  let code ← t.code name
  let p ← t.get code
  return .native code p.name p.signature

/-- Adds a primitive and yields its code. One that is registered under the same name is replaced and
keeps its code. -/
def register (t : PrimitiveTable) (p : Primitive) : Nat × PrimitiveTable :=
  match t.code? p.name with
  | some code => (code, { t with entries := t.entries.set code p })
  | none =>
    let code := codeAt t.entries.length
    (code, { entries := t.entries ++ [p], codes := t.codes ++ [(p.name, code)] })

/-- Adds primitives in order. -/
def registerAll (t : PrimitiveTable) (ps : List Primitive) : PrimitiveTable :=
  ps.foldl (fun t p => (t.register p).2) t

/-- The names in alphabetical order. -/
def names (t : PrimitiveTable) : List String :=
  (t.codes.map (·.1)).mergeSort (· ≤ ·)

end PrimitiveTable

end FlatMachine
