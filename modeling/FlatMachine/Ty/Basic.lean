/-!
# Types

The types of stored values. Scalars have a fixed width; strings, slices and pointers are stored as
four-byte handles; arrays and structs are stored in place.
-/

namespace FlatMachine

/-- The fixed-width integer types. -/
inductive IntKind where
  | i8 | i16 | i32 | i64 | u8 | u16 | u32 | u64
  deriving DecidableEq, Inhabited

namespace IntKind

def all : List IntKind := [i8, i16, i32, i64, u8, u16, u32, u64]

@[reducible] def bits : IntKind → Nat
  | i8 | u8 => 8
  | i16 | u16 => 16
  | i32 | u32 => 32
  | i64 | u64 => 64

def bytes : IntKind → Nat
  | i8 | u8 => 1
  | i16 | u16 => 2
  | i32 | u32 => 4
  | i64 | u64 => 8

def isSigned : IntKind → Bool
  | i8 | i16 | i32 | i64 => true
  | u8 | u16 | u32 | u64 => false

def name : IntKind → String
  | i8 => "i8" | i16 => "i16" | i32 => "i32" | i64 => "i64"
  | u8 => "u8" | u16 => "u16" | u32 => "u32" | u64 => "u64"

theorem bits_eq (k : IntKind) : k.bits = 8 * k.bytes := by cases k <;> rfl

end IntKind

/-- The IEEE 754 binary formats. -/
inductive FloatKind where
  | f32 | f64
  deriving DecidableEq, Inhabited

namespace FloatKind

def all : List FloatKind := [f32, f64]

@[reducible] def bits : FloatKind → Nat
  | f32 => 32
  | f64 => 64

def bytes : FloatKind → Nat
  | f32 => 4
  | f64 => 8

def name : FloatKind → String
  | f32 => "f32"
  | f64 => "f64"

theorem bits_eq (k : FloatKind) : k.bits = 8 * k.bytes := by cases k <;> rfl

end FloatKind

/-- The type of a stored value. -/
inductive Ty where
  /-- Not known yet; in a signature, any type. -/
  | undefined
  | bool
  | int (kind : IntKind)
  | float (kind : FloatKind)
  | str
  /-- A fixed number of elements, stored in place. -/
  | array (elem : Ty) (length : UInt32)
  | slice (elem : Ty)
  | pointer (target : Ty)
  /-- A struct, laid out by a `StructTable`. -/
  | struct (name : String)
  deriving DecidableEq, Inhabited

namespace Ty

abbrev i8 : Ty := int .i8
abbrev i16 : Ty := int .i16
abbrev i32 : Ty := int .i32
abbrev i64 : Ty := int .i64
abbrev u8 : Ty := int .u8
abbrev u16 : Ty := int .u16
abbrev u32 : Ty := int .u32
abbrev u64 : Ty := int .u64
abbrev f32 : Ty := float .f32
abbrev f64 : Ty := float .f64

/-- The bytes of a stored handle. -/
def handleWidth : Nat := 4

/-- The name of a type: `i64`, `[]str`, `[4]f64`, `*Item`. -/
def text : Ty → String
  | undefined => "undefined"
  | bool => "bool"
  | int kind => kind.name
  | float kind => kind.name
  | str => "str"
  | array elem length => s!"[{length.toNat}]" ++ elem.text
  | slice elem => "[]" ++ elem.text
  | pointer target => "*" ++ target.text
  | struct name => name

def isInteger : Ty → Bool
  | int _ => true
  | _ => false

def isFloat : Ty → Bool
  | float _ => true
  | _ => false

/-- Stored as its own value at a fixed width. -/
def isScalar : Ty → Bool
  | bool | int _ | float _ => true
  | _ => false

/-- Stored as the address of an object. -/
def isHandle : Ty → Bool
  | str | slice _ | pointer _ => true
  | _ => false

def isDefined : Ty → Bool
  | undefined => false
  | _ => true

/-- The element type of an array or slice. -/
def element? : Ty → Option Ty
  | array elem _ | slice elem => some elem
  | _ => none

end Ty

end FlatMachine
