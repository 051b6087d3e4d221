import FlatMachine.LittleEndian
import FlatMachine.StructTable
import FlatMachine.Text.Utf8
import FlatMachine.Value.Basic

/-!
# Encoded values

Scalars are little-endian at the width of their type and addresses are four-byte handles. A string
or slice is encoded as an object: a four-byte count followed by the elements, which are scalars or
handles.
-/

namespace FlatMachine

/-- The bytes of an object's count. -/
def headerWidth : Nat := 4

/-- An address or count as four bytes. -/
def encodeHandle (offset : Nat) : Except Error Bytes :=
  if offset ≤ Size.maxHandle then .ok (LittleEndian.encode 4 offset)
  else .error (.outOfMemory offset Size.maxHandle)

def Ty.elementWidth (elem : Ty) : Except Error Nat :=
  match elem with
  | .bool => .ok 1
  | .int kind => .ok kind.bytes
  | .float kind => .ok kind.bytes
  | .str | .slice _ | .pointer _ => .ok Ty.handleWidth
  | other => .error (.typeMismatch "codec" "a scalar or handle element" other.text)

namespace Value

def encodeMismatch (v : Value) (ty : Ty) : Error := .typeMismatch "encode" ty.text v.typeName

def encodeScalar (v : Value) (ty : Ty) : Except Error Bytes :=
  match v, ty with
  | bool b, .bool => .ok [if b then 1 else 0]
  | int k w, .int l => if k = l then .ok (LittleEndian.encode k.bytes w.toNat)
    else .error (encodeMismatch (int k w) (.int l))
  | float k w, .float l => if k = l then .ok (LittleEndian.encode k.bytes w.toNat)
    else .error (encodeMismatch (float k w) (.float l))
  | v, ty => .error (v.encodeMismatch ty)

def encodeElement (elem : Ty) (v : Value) : Except Error Bytes :=
  if elem.isHandle then
    match v with
    | pointer offset => encodeHandle offset
    | v => .error (v.encodeMismatch elem)
  else v.encodeScalar elem

/-- The bytes of the elements, one after another. -/
def encodeElements (elem : Ty) : List Value → Except Error Bytes
  | [] => .ok []
  | v :: rest => do
    let bytes ← v.encodeElement elem
    return bytes ++ (← encodeElements elem rest)

/-- The bytes of a value of a type; for a string or slice those of its object. -/
def encode (v : Value) (ty : Ty) : Except Error Bytes :=
  match v, ty with
  | pointer offset, .pointer _ | pointer offset, .str | pointer offset, .slice _ =>
    encodeHandle offset
  | str s, .str => do
    let payload := Utf8.encode s
    return (← encodeHandle payload.length) ++ payload
  | slice items, .slice elem => do
    let _ ← elem.elementWidth
    let header ← encodeHandle items.length
    return header ++ (← encodeElements elem items)
  | v, ty => v.encodeScalar ty

end Value

/-- The first `width` bytes, as a word of that width. -/
def takeWord (bytes : Bytes) (width : Nat) (ty : Ty) : Except Error Nat :=
  if width ≤ bytes.length then .ok (LittleEndian.decode (bytes.take width))
  else .error (.typeMismatch "decode" s!"{width} bytes for {ty.text}" (toString bytes.length))

/-- The bytes that an object of `count` elements takes, held at the largest size. -/
def objectSize (count width : Nat) : Nat :=
  ((Size.mul? count width).bind (Size.add? · headerWidth)).getD Size.max

/-- The count of an object, if its elements lie within the bytes. -/
def checkedCount (bytes : Bytes) (width : Nat) : Except Error Nat :=
  if bytes.length < headerWidth then .error (.corruptSlice headerWidth bytes.length)
  else
    let count := LittleEndian.decode (bytes.take headerWidth)
    if bytes.length < objectSize count width then
      .error (.corruptSlice (objectSize count width) bytes.length)
    else .ok count

namespace Ty

/-- The value of a scalar or address type that the bytes start with. -/
def decodeWord (bytes : Bytes) (ty : Ty) : Except Error Value :=
  match ty with
  | .bool => return .bool ((← takeWord bytes 1 ty) != 0)
  | .int kind => return .int kind (BitVec.ofNat _ (← takeWord bytes kind.bytes ty))
  | .float kind => return .float kind (BitVec.ofNat _ (← takeWord bytes kind.bytes ty))
  | .pointer _ => return .pointer (← takeWord bytes handleWidth ty)
  | other => .error (.typeMismatch "decode" "a codec type" other.text)

/-- The type as which a slice's element is decoded. -/
def elementView (elem : Ty) : Ty := if elem.isHandle then pointer undefined else elem

/-- `count` elements of the same width, one after another. -/
def decodeElements (elem : Ty) (width : Nat) : Nat → Bytes → Except Error (List Value)
  | 0, _ => .ok []
  | count + 1, bytes => do
    let item ← elem.elementView.decodeWord (bytes.take width)
    return item :: (← decodeElements elem width count (bytes.drop width))

/-- The value of the type that the bytes start with. -/
def decode (bytes : Bytes) (ty : Ty) : Except Error Value :=
  match ty with
  | str => do
    let count ← checkedCount bytes 1
    return .str (Utf8.decodeText ((bytes.drop headerWidth).take count))
  | slice elem => do
    let width ← elem.elementWidth
    let count ← checkedCount bytes width
    return .slice (← elem.decodeElements width count (bytes.drop headerWidth))
  | ty => ty.decodeWord bytes

end Ty

end FlatMachine
