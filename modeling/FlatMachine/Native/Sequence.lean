import FlatMachine.Native.Primitive

/-!
# Slice and string operators

The operators on slices move encoded elements and are the same for every element type. Appending and
concatenating yield a new slice; copying and writing change the elements of an old one.
-/

namespace FlatMachine

namespace Site

/-- The width of the elements of the first input. -/
def elementWidth (s : Site) (a : Arena) : Except Error Nat := do
  match ← s.inputTy a 0 with
  | .slice elem => elem.elementWidth
  | other => .error (.typeMismatch s.name "a slice" other.text)

/-- The number of elements of the first input. -/
def objectLength : Compute := fun s a => do
  let handle ← s.inputHandle a 0
  s.outputs [← s.lengthValue (← a.objectLength handle)]

def elementIndex (s : Site) (a : Arena) (i : Nat) : Except Error Int := do
  return IntKind.i32.toInt (← s.int .i32 a i)

end Site

inductive SliceOp where
  | len | append | concat | copy | read | write
  deriving DecidableEq

namespace SliceOp

def all : List SliceOp := [len, append, concat, copy, read, write]

def name : SliceOp → String
  | len => "len" | append => "append" | concat => "concat" | copy => "copy" | read => "read"
  | write => "write"

def signature (op : SliceOp) (elem : Ty) : Signature :=
  match op with
  | len => .of [.slice elem] [.i32]
  | append => .of [.slice elem, elem] [.slice elem]
  | concat => .of [.slice elem, .slice elem] [.slice elem]
  | copy => .of [.slice elem, .slice elem] []
  | read => .of [.slice elem, .i32] [elem]
  | write => .of [.slice elem, .i32, elem] []

/-- A new slice with one more element. -/
def appendBody (s : Site) : Action Workspace Slots := do
  let width ← Workspace.look s.elementWidth
  let handle ← Workspace.look (s.inputHandle · 0)
  let element ← Workspace.look (s.inputBytes · 1)
  let grown ← Workspace.onArena (Arena.appendElement handle width element)
  Action.ofExcept (s.outputHandle grown)

/-- A new slice with the elements of two. -/
def concatBody (s : Site) : Action Workspace Slots := do
  let width ← Workspace.look s.elementWidth
  let first ← Workspace.look (s.inputHandle · 0)
  let second ← Workspace.look (s.inputHandle · 1)
  let joined ← Workspace.onArena (Arena.concatObjects first second width)
  Action.ofExcept (s.outputHandle joined)

/-- Overwrites the first elements of a slice by those of another. -/
def copyBody (s : Site) : Action Workspace Slots := do
  let width ← Workspace.look s.elementWidth
  let dst ← Workspace.look (s.inputHandle · 0)
  let src ← Workspace.look (s.inputHandle · 1)
  let _ ← Workspace.onArena (Arena.copyElements dst src width)
  return s.noOutputs

/-- An element. -/
def readBody : Compute := fun s a => do
  let width ← s.elementWidth a
  let handle ← s.inputHandle a 0
  let index ← s.elementIndex a 1
  let offset ← a.elementOffset handle index width
  s.stage s.noOutputs 0 (.bytes (← a.read offset width))

/-- Overwrites an element. -/
def writeBody (s : Site) : Action Workspace Slots := do
  let width ← Workspace.look s.elementWidth
  let handle ← Workspace.look (s.inputHandle · 0)
  let index ← Workspace.look (s.elementIndex · 1)
  let element ← Workspace.look (s.inputBytes · 2)
  if element.length ≠ width then
    throw (.typeMismatch s.name s!"{width} byte element" (toString element.length))
  let offset ← Workspace.look (·.elementOffset handle index width)
  Workspace.onArena (Action.update (·.write offset element))
  return s.noOutputs

def body : SliceOp → Body
  | len => .compute Site.objectLength
  | append => .act appendBody
  | concat => .act concatBody
  | copy => .act copyBody
  | read => .compute readBody
  | write => .act writeBody

def primitive (op : SliceOp) (elem : Ty) : Primitive :=
  ⟨s!"{(Ty.slice elem).text}.{op.name}", op.signature elem, op.body⟩

def elementTypes : List Ty :=
  IntKind.all.map Ty.int ++ FloatKind.all.map Ty.float ++ [.bool, .str]

/-- The slice operators of every element type. -/
def primitives : List Primitive := elementTypes.flatMap fun elem => all.map (·.primitive elem)

end SliceOp

def stringPrimitives : List Primitive :=
  [⟨"str.len", .of [.str] [.i32], .compute Site.objectLength⟩,
   ⟨"str.concat", .of [.str, .str] [.str], .compute fun s a => do
      let front ← s.str a 0
      let back ← s.str a 1
      s.outputs [.str (front ++ back)]⟩,
   ⟨"str.eq", .of [.str, .str] [.bool], .compute fun s a => do
      let x ← s.str a 0
      let y ← s.str a 1
      s.outputs [.bool (x == y)]⟩]

end FlatMachine
