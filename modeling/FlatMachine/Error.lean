/-!
# Errors

What can go wrong while a program is built or run. An error raised by a node carries the node's
source location; `Error.message` is the wording of every error and `Error.severity` tells whether
the memory can still be trusted after it.
-/

namespace FlatMachine

/-- Where a node or operand stood in its source; line 0 when unknown. -/
structure Location where
  file : String := ""
  line : Nat := 0
  deriving DecidableEq, Inhabited

/-- `file:line`, with a placeholder for an unknown file. -/
def Location.text (location : Location) : String :=
  let file := if location.file = "" then "<unknown>" else location.file
  s!"{file}:{location.line}"

/-- The causes of failure, and a cause tagged with the location it arose at. -/
inductive Error where
  /-- A value, operand or place has another type or width than the context needs. -/
  | typeMismatch (context expected got : String)
  /-- An index is negative or not below the length. -/
  | indexOutOfRange (index : Int) (length : Nat)
  /-- A variable, function, struct, field or operator is unknown. -/
  | unresolvedSymbol (name : String)
  /-- The nil handle was followed. -/
  | nullPointer (name : String)
  /-- An access leaves the allocated region. -/
  | outOfBounds (offset width limit : Nat)
  /-- The count of an object claims more bytes than there are. -/
  | corruptSlice (needed available : Nat)
  /-- The memory would grow past its ceiling, or an address past the range of handles. -/
  | outOfMemory (requested limit : Nat)
  /-- The stack segment or the number of frames is exhausted. -/
  | stackOverflow (depth : Nat)
  | divisionByZero (op : String)
  /-- A random range whose bounds are in the wrong order. -/
  | invalidRange (op : String) (min max : Int)
  | invalidArguments (op reason : String)
  | invalidAssignment (reason : String)
  /-- A host library refused. -/
  | adapter (name message : String)
  /-- Unusable options. -/
  | config (reason : String)
  /-- A plain sum of sizes was no size. This is no answer: the program has stopped. -/
  | sizeOverflow
  | located (location : Location) (source : Error)
  deriving DecidableEq, Inhabited

/-- A fatal error leaves memory that can no longer be trusted. -/
inductive Severity where
  | fatal
  | recoverable
  deriving DecidableEq

def Severity.name : Severity → String
  | fatal => "Fatal"
  | recoverable => "Recoverable"

namespace Error

def message : Error → String
  | typeMismatch context expected got =>
    s!"Type mismatch in {context}: expected {expected}, got {got}"
  | indexOutOfRange index length => s!"Index out of range: {index} for length {length}"
  | unresolvedSymbol name => s!"Unresolved symbol: {name}"
  | nullPointer name => s!"Nil pointer dereference while resolving {name}"
  | outOfBounds offset width limit =>
    s!"Out of bounds access: offset {offset} width {width} (allocated {limit})"
  | corruptSlice needed available =>
    s!"Corrupt slice: header claims {needed} bytes, {available} available"
  | outOfMemory requested limit =>
    s!"Out of memory: requested {requested} bytes (limit: {limit} bytes)"
  | stackOverflow depth => s!"Stack overflow at call depth {depth}"
  | divisionByZero op => s!"Division by zero in {op}"
  | invalidRange op min max =>
    s!"Invalid range for {op}: min must not exceed max ({min} > {max})"
  | invalidArguments op reason => s!"Invalid arguments for {op}: {reason}"
  | invalidAssignment reason => s!"Invalid assignment: {reason}"
  | adapter name text => s!"Adapter error ({name}): {text}"
  | config reason => s!"Configuration error: {reason}"
  | sizeOverflow => "Overflow in a sum of sizes"
  | located location source => s!"{location.text}: {source.message}"

/-- Tags an error with a location; one that has a location keeps it. -/
def tag (location : Location) : Error → Error
  | located inner source => located inner source
  | e => located location e

/-- The error without its locations. -/
def root : Error → Error
  | located _ source => source.root
  | e => e

def cause : Error → String
  | typeMismatch .. => "TypeMismatch"
  | indexOutOfRange .. => "IndexOutOfRange"
  | unresolvedSymbol .. => "UnresolvedSymbol"
  | nullPointer .. => "NullPointer"
  | outOfBounds .. => "OutOfBounds"
  | corruptSlice .. => "CorruptSlice"
  | outOfMemory .. => "OutOfMemory"
  | stackOverflow .. => "StackOverflow"
  | divisionByZero .. => "DivisionByZero"
  | invalidRange .. => "InvalidRange"
  | invalidArguments .. => "InvalidArguments"
  | invalidAssignment .. => "InvalidAssignment"
  | adapter .. => "Adapter"
  | config .. => "Config"
  | sizeOverflow => "SizeOverflow"
  | located _ source => source.cause

def location? : Error → Option Location
  | located location _ => some location
  | _ => none

/-- Errors found before anything was written can be recovered from. -/
def severity (e : Error) : Severity :=
  match e.root with
  | divisionByZero .. | typeMismatch .. | invalidRange .. | invalidArguments ..
  | invalidAssignment .. | config .. => .recoverable
  | _ => .fatal

def isFatal (e : Error) : Bool := e.severity == .fatal

@[simp] theorem root_located (location : Location) (source : Error) :
    (located location source).root = source.root := rfl

@[simp] theorem root_tag (location : Location) (e : Error) : (e.tag location).root = e.root := by
  cases e <;> rfl

@[simp] theorem tag_tag (inner outer : Location) (e : Error) :
    (e.tag inner).tag outer = e.tag inner := by
  cases e <;> rfl

end Error

end FlatMachine
