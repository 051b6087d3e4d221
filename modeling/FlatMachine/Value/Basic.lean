import FlatMachine.Word.Float

/-!
# Values

A value as a program sees it after reading memory. Handles that are elements of a slice stay
addresses.
-/

namespace FlatMachine

inductive Value where
  | bool (b : Bool)
  | int (kind : IntKind) (word : BitVec kind.bits)
  | float (kind : FloatKind) (word : BitVec kind.bits)
  | str (text : String)
  | slice (items : List Value)
  /-- An address: a pointer, or a handle inside a slice. -/
  | pointer (offset : Nat)
  deriving Inhabited

namespace Value

def i32 (n : Int) : Value := int .i32 (IntKind.ofInt .i32 n)

/-- The kind of a value, as messages name it. -/
def typeName : Value → String
  | bool _ => "bool"
  | int kind _ => kind.name
  | float kind _ => kind.name
  | str _ => "str"
  | slice _ => "slice"
  | pointer _ => "pointer"

/-- The integer in a value, wrapped to 64 bits. -/
def toInt64? : Value → Option Int
  | int kind word => some (BitVec.ofInt 64 (kind.toInt word)).toInt
  | _ => none

def toBool? : Value → Option Bool
  | bool b => some b
  | _ => none

mutual

/-- Equality as programs compare: floating-point numbers by their order, so that the two zeros are
equal and a NaN differs from itself. -/
def equals : Value → Value → Bool
  | bool a, bool b => a == b
  | int k a, int l b => k == l && decide (k.toInt a = l.toInt b)
  | float k a, float l b =>
    if h : k = l then k.compare .eq a (b.cast (by rw [h])) else false
  | str a, str b => a == b
  | slice a, slice b => equalItems a b
  | pointer a, pointer b => a == b
  | _, _ => false

def equalItems : List Value → List Value → Bool
  | [], [] => true
  | a :: as, b :: bs => a.equals b && equalItems as bs
  | _, _ => false

end

end Value

end FlatMachine
