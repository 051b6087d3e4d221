import FlatMachine.Code.Node
import FlatMachine.Json.Basic

/-!
# Nodes as JSON

Types, struct layouts and nodes as JSON documents, for inspection. Members stand in a fixed order; a
variant without content is its name, one with content an object with the name as its only member.
-/

namespace FlatMachine

open Json

/-- The name of an integer type's variant. -/
def IntKind.tag : IntKind → String
  | i8 => "I8" | i16 => "I16" | i32 => "I32" | i64 => "I64"
  | u8 => "U8" | u16 => "U16" | u32 => "U32" | u64 => "U64"

/-- The name of a floating-point type's variant. -/
def FloatKind.tag : FloatKind → String
  | f32 => "F32"
  | f64 => "F64"

def Ty.toJson : Ty → Json
  | undefined => .str "Undefined"
  | bool => .str "Bool"
  | int kind => .str kind.tag
  | float kind => .str kind.tag
  | str => .str "Str"
  | array elem length => .tagged "Array" (.object [("elem", elem.toJson), ("len", .nat length.toNat)])
  | slice elem => .tagged "Slice" elem.toJson
  | pointer target => .tagged "Pointer" target.toJson
  | struct name => .tagged "Struct" (.str name)

def Field.toJson (f : Field) : Json :=
  .object [("name", .str f.name), ("ty", f.ty.toJson), ("offset", .nat f.offset)]

def StructDef.toJson (d : StructDef) : Json :=
  .object [("name", .str d.name), ("fields", .array (d.fields.map Field.toJson)),
    ("size", .nat d.size)]

def Location.toJson (l : Location) : Json :=
  .object [("file", .str l.file), ("line", .nat l.line)]

def Storage.toJson : Storage → Json
  | unassigned => .str "Unassigned"
  | frame offset => .tagged "Local" (.object [("offset", .nat offset)])
  | global offset => .tagged "Global" (.object [("offset", .nat offset)])

/-- How an operand is passed. -/
def modeJson (byReference : Bool) : Json := .str (if byReference then "Reference" else "Value")

mutual

def Operand.toJson : Operand → Json
  | { name, ty, storage, chain, byReference, escapes, literalPointer, structName, declared,
      shortDeclared, location, package } =>
    .object [("name", .str name), ("ty", ty.toJson), ("storage", storage.toJson),
      ("derefs", .array (chainJson chain)), ("pass_by", modeJson byReference),
      ("escapes", .bool escapes), ("decl_pointer", .bool literalPointer),
      ("custom_type", (structName.map Json.str).getD .null), ("previously_declared", .bool declared),
      ("is_short_declaration", .bool shortDeclared), ("location", location.toJson),
      ("package", .str package)]

def chainJson : List Access → List Json
  | [] => []
  | access :: rest => access.toJson :: chainJson rest

def Access.toJson : Access → Json
  | .pointer => .str "Pointer"
  | .index source => .tagged "Index" source.toJson
  | .field ref => .tagged "Field" (.object [("name", .str ref.name), ("offset", .nat ref.offset),
      ("ty", ref.ty.toJson)])

def Index.toJson : Index → Json
  | .const n => .tagged "Const" (.int n)
  | .operand source => .tagged "Arg" source.toJson

end

def Param.toJson (p : Param) : Json :=
  .object [("ty", p.ty.toJson), ("pass_by", modeJson p.byReference), ("escapes", .bool p.escapes),
    ("one_of", .array (p.oneOf.map Ty.toJson)), ("same_as_first", .bool p.sameAsFirst)]

def Signature.toJson (s : Signature) : Json :=
  .object [("inputs", .array (s.inputs.map Param.toJson)),
    ("outputs", .array (s.outputs.map Param.toJson))]

def FunctionName.toJson (f : FunctionName) : Json :=
  .object [("package", .str f.package), ("name", .str f.name)]

def Operator.toJson : Operator → Json
  | native code name signature => .tagged "Native" (.object
      [("code", .nat code), ("name", .str name), ("signature", signature.toJson)])
  | call function signature => .tagged "Call" (.object
      [("function", function.toJson), ("signature", signature.toJson)])
  | jump onTrue onFalse => .tagged "Jump" (.object
      [("then_lines", .int onTrue), ("else_lines", .int onFalse)])

def Node.toJson (n : Node) : Json :=
  .object [("operator", (n.operator.map Operator.toJson).getD .null),
    ("inputs", .array (n.inputs.map Operand.toJson)),
    ("outputs", .array (n.outputs.map Operand.toJson)), ("package", .str n.package),
    ("location", n.location.toJson), ("is_method_call", .bool n.isMethodCall),
    ("is_array_literal", .bool n.isArrayElement), ("is_struct_literal", .bool n.isStructField)]

/-- The text of a body, for inspection. -/
def dump (body : List Node) : String := (Json.array (body.map Node.toJson)).pretty

end FlatMachine
