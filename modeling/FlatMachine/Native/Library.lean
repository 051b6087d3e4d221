import FlatMachine.Native.Binary
import FlatMachine.Native.Sequence

/-!
# The library of primitives

The operators every program can use, in the order of their codes.
-/

namespace FlatMachine

/-- Copies the bytes of any value. -/
def identity : Primitive where
  name := "identity"
  signature := { inputs := [.any], outputs := [.any] }
  body := .compute fun s a => do s.stage s.noOutputs 0 (.bytes (← s.inputBytes a 0))

/-- The operators on truth values. -/
def boolPrimitives : List Primitive :=
  [⟨"bool.and", .of [.bool, .bool] [.bool], .compute conjunction⟩,
   ⟨"bool.or", .of [.bool, .bool] [.bool], .compute disjunction⟩,
   ⟨"bool.eq", .of [.bool, .bool] [.bool], .compute (equality true)⟩,
   ⟨"bool.uneq", .of [.bool, .bool] [.bool], .compute (equality false)⟩,
   ⟨"bool.not", .of [.bool] [.bool], .compute negation⟩]

/-- The conversions between numbers. Narrowing an integer keeps its low bits; a floating-point
number becomes the integer next to it on the side of zero. -/
def conversions : List Primitive :=
  [⟨"i32.i64", .of [.i32] [.i64], .compute fun s a => do
      s.outputs [.int .i64 (IntKind.i64.ofInt (IntKind.i32.toInt (← s.int .i32 a 0)))]⟩,
   ⟨"i64.i32", .of [.i64] [.i32], .compute fun s a => do
      s.outputs [.int .i32 (IntKind.i32.ofInt (IntKind.i64.toInt (← s.int .i64 a 0)))]⟩,
   ⟨"i64.f64", .of [.i64] [.f64], .compute fun s a => do
      s.outputs [.float .f64 (FloatKind.doubleOfInt (← s.int .i64 a 0))]⟩,
   ⟨"f64.i64", .of [.f64] [.i64], .compute fun s a => do
      s.outputs [.int .i64 (FloatKind.truncate (← s.float .f64 a 0))]⟩,
   ⟨"i32.f32", .of [.i32] [.f32], .compute fun s a => do
      s.outputs [.float .f32 (FloatKind.singleOfInt (← s.int .i32 a 0))]⟩]

/-- The primitives of the library in the order of their codes. -/
def library : List Primitive :=
  identity :: BinaryOp.generics.map (·.genericPrimitive) ++ boolPrimitives ++ conversions ++
    IntKind.all.flatMap (·.primitives) ++ FloatKind.all.flatMap (·.primitives) ++
    stringPrimitives ++ SliceOp.primitives

def PrimitiveTable.standard : PrimitiveTable := { entries := library }

end FlatMachine
