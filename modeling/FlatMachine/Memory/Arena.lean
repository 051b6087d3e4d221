import FlatMachine.Action
import FlatMachine.LittleEndian
import FlatMachine.Value.Codec

/-!
# The arena

All program state lies in one run of bytes:

    0       8            stackStart       stackEnd        heapPointer     capacity
    | nil   | data       | call frames    | heap objects  | reserve       |

Offset 0 is the nil handle and the first eight bytes are never handed out. Bytes from the heap
pointer on are not allocated and cannot be read or written; the reserve is only counted. Heap bytes
are allocated in order and never given back.
-/

namespace FlatMachine

def nilHandle : Nat := 0

/-- The bytes at the start of the data segment that keep offset 0 free. -/
def nilGuard : Nat := 8

/-- Stores the bytes from `offset` on; what falls outside the image is dropped. -/
def overlay (image : Array UInt8) (offset : Nat) : Bytes → Array UInt8
  | [] => image
  | b :: rest => overlay (image.setIfInBounds offset b) (offset + 1) rest

@[simp] theorem size_overlay (image : Array UInt8) (offset : Nat) (bytes : Bytes) :
    (overlay image offset bytes).size = image.size := by
  induction bytes generalizing image offset with
  | nil => rfl
  | cons b rest ih => simp [overlay, ih]

/-- The memory of a running program. -/
structure Arena where
  /-- The allocated bytes. -/
  image : Array UInt8
  /-- End of the data segment, where the first frame begins. -/
  stackStart : Nat
  /-- End of the stack segment, where the heap begins. -/
  stackEnd : Nat
  /-- Bytes reserved so far. -/
  capacity : Nat
  /-- Ceiling of the capacity. -/
  limit : Nat
  deriving Inhabited

namespace Arena

/-- End of the allocated region. -/
def heapPointer (a : Arena) : Nat := a.image.size

/-- An arena holding `data`, a zeroed stack segment and a heap with `heapSize` bytes in reserve. The
sums are plain ones; where they wrap, there may not be room for the data. -/
def withLayout (data : Bytes) (stackSize heapSize limit : Nat) (overflow : Overflow := .stops) :
    Except Error Arena := do
  let stackStart := max data.length nilGuard
  let stackEnd ← Size.plain overflow (stackStart + stackSize)
  let reserved ← Size.plain overflow (stackEnd + heapSize)
  if limit < reserved then .error (.outOfMemory reserved limit)
  else if reserved < data.length then .error .sizeOverflow
  else .ok {
    image := (data.take stackEnd).toArray ++ Array.replicate (stackEnd - data.length) 0
    stackStart, stackEnd, capacity := reserved, limit }

/-- An arena without data whose heap can grow to sixteen times its reserve. -/
def scratch (stackSize heapSize : Nat) (overflow : Overflow := .stops) : Except Error Arena := do
  let heapLimit ← Size.plain overflow (max heapSize 1 * 16)
  let limit ← Size.plain overflow (nilGuard + stackSize + heapLimit)
  withLayout [] stackSize heapSize limit overflow

/-- The bytes `[offset, offset + width)` are allocated. -/
@[inline] def check (a : Arena) (offset width : Nat) : Except Error Unit :=
  if offset + width ≤ a.heapPointer then .ok ()
  else .error (.outOfBounds offset width a.heapPointer)

def read (a : Arena) (offset width : Nat) : Except Error Bytes := do
  a.check offset width
  return (a.image.extract offset (offset + width)).toList

@[inline] def write (a : Arena) (offset : Nat) (bytes : Bytes) : Except Error Arena := do
  a.check offset bytes.length
  return { a with image := overlay a.image offset bytes }

@[inline] def zero (a : Arena) (offset width : Nat) : Except Error Arena := do
  a.check offset width
  return { a with image := overlay a.image offset (List.replicate width 0) }

/-- Copies bytes from one range to another; the ranges may overlap. -/
@[inline] def copy (a : Arena) (src dst width : Nat) : Except Error Arena := do
  a.check src width
  a.check dst width
  return { a with image := overlay a.image dst (a.image.extract src (src + width)).toList }

def readHandle (a : Arena) (offset : Nat) : Except Error Nat := do
  return LittleEndian.decode (← a.read offset 4)

/-- Stores a handle or count. -/
@[inline] def writeHandle (a : Arena) (offset value : Nat) : Except Error Arena := do
  a.write offset (← encodeHandle value)

/-- Makes sure that the bytes up to `stop` are reserved: the reserve is doubled, as far as the
ceiling allows. -/
def reserve (a : Arena) (stop : Nat) : Except Error Arena :=
  if stop ≤ a.capacity then .ok a
  else if a.limit < stop then .error (.outOfMemory stop a.limit)
  else .ok { a with capacity := min (max (a.capacity * 2) stop) a.limit }

/-- Adds zeroed bytes to the allocated region, which must be reserved. -/
def extend (a : Arena) (width : Nat) : Arena :=
  { a with image := a.image ++ Array.replicate width 0 }

/-- Allocates zeroed bytes and yields their offset. -/
def allocate (a : Arena) (size : Nat) : Except Error (Nat × Arena) := do
  match Size.add? a.heapPointer size with
  | none => .error (.outOfMemory Size.max a.limit)
  | some stop => return (a.heapPointer, (← a.reserve stop).extend size)

/-- Gives the object at `offset` another size and yields its offset. The latest allocation grows in
place; any other object that grows is moved. The new end of the latest allocation is a plain sum; if
it wrapped, it would lie in front of the bytes to be zeroed, which stops the program as well. -/
def resize (a : Arena) (offset oldSize newSize : Nat) : Except Error (Nat × Arena) := do
  a.check offset oldSize
  if newSize ≤ oldSize then
    return (offset, a)
  else if offset + oldSize = a.heapPointer ∧ a.stackEnd ≤ offset then
    let stop ← Size.plain .stops (offset + newSize)
    return (offset, (← a.reserve stop).extend (newSize - oldSize))
  else
    let (moved, grown) ← a.allocate newSize
    return (moved, { grown with
      image := overlay grown.image moved (grown.image.extract offset (offset + oldSize)).toList })

end Arena

end FlatMachine
