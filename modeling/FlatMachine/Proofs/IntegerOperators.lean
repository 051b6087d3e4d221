import FlatMachine.Proofs.Atomicity
import FlatMachine.Proofs.GenericOperators
import FlatMachine.Proofs.IntegerWords
import FlatMachine.Proofs.SequenceExecution

/-!
# Integer operators

What an operator on integers of a kind answers is said of the integers: the exact result, wrapped
into the range of the kind. A node that applies the operator to inputs that hold integers stores the
answer in its output, or fails as the answer does, and a failing node leaves the machine as it was.
-/

namespace FlatMachine

open FlatMachine.Action

/-- What an operator on integers yields. -/
inductive IntAnswer where
  | number (n : Int)
  | truth (b : Bool)
  deriving DecidableEq

namespace IntAnswer

/-- The type of an answer of an operator on a kind. -/
def ty (k : IntKind) : IntAnswer → Ty
  | number _ => .int k
  | truth _ => .bool

/-- The value that an operator stages for the answer. -/
def value (k : IntKind) : IntAnswer → Value
  | number n => .int k (k.ofInt n)
  | truth b => .bool b

/-- A number is one of the kind. -/
def InRange (k : IntKind) : IntAnswer → Prop
  | number n => k.InRange n
  | truth _ => True

variable {k : IntKind} {r : IntAnswer}

end IntAnswer

/-- The answer of an operator on two integers of a kind; `opName` is the name errors carry. -/
def BinaryOp.answer (op : BinaryOp) (opName : String) (k : IntKind) (a b : Int) :
    Except Error IntAnswer :=
  match op with
  | add => .ok (.number (k.wrap (a + b)))
  | sub => .ok (.number (k.wrap (a - b)))
  | mul => .ok (.number (k.wrap (a * b)))
  | div => if b = 0 then .error (.divisionByZero opName) else .ok (.number (k.wrap (a.tdiv b)))
  | mod => if b = 0 then .error (.divisionByZero opName) else .ok (.number (a.tmod b))
  | and => .ok (.number (k.wrap (a.land b)))
  | or => .ok (.number (k.wrap (a.lor b)))
  | xor => .ok (.number (k.wrap (a.xor b)))
  | bitclear => .ok (.number (k.wrap (a.ldiff b)))
  | shl => if b < 0 then .error (.invalidArguments opName s!"negative shift count {b}")
    else .ok (.number (k.wrap (a * 2 ^ b.toNat)))
  | shr => if b < 0 then .error (.invalidArguments opName s!"negative shift count {b}")
    else .ok (.number (a / 2 ^ b.toNat))
  | compare c => .ok (.truth (c.holds a b))

/-- The answer of an operator on one integer of a kind. -/
def IntUnary.answer (op : IntUnary) (k : IntKind) (a : Int) : IntAnswer :=
  match op with
  | neg => .number (k.wrap (-a))
  | abs => .number (k.wrap |a|)

section Words

variable {k : IntKind} {r : IntAnswer}

end Words

/-- The operators on one or two integers. -/
inductive IntegerOp where
  | binary (op : BinaryOp)
  | unary (op : IntUnary)
  deriving DecidableEq

namespace IntegerOp

/-- The operator of the library on a kind. -/
def primitive (k : IntKind) : IntegerOp → Primitive
  | binary op => op.intPrimitive k
  | unary op => op.primitive k

end IntegerOp

/-- The operand is passed by value and holds the integer. -/
structure Machine.HoldsInt (m : Machine) (fp : Nat) (k : IntKind) (o : Operand) (n : Int) :
    Prop where
  byValue : o.byReference = false
  holds : ∃ w, m.value fp o = .ok (.int k w) ∧ k.toInt w = n

section Execution

variable {m : Machine} {fp i : Nat} {n : Node} {o out : Operand} {k : IntKind} {a : Arena}
  {s : Site} {v : Value} {place : Place} {slots : Slots} {op : IntegerOp} {args : List Int}
  {r : IntAnswer} {e : Error}

/-- The value of an operand that is passed by value is the input. -/
theorem Site.input_of_value (ho : s.node.inputs[i]? = some o) (hvalue : o.byReference = false)
    (h : o.value s.structs a s.fp = .ok v) : s.input a i = .ok v := by
  obtain ⟨place, hplace, h⟩ := bind_eq_ok.mp h
  rw [input, operand_eq_ok ho]
  change (o.place s.structs a s.fp >>= fun _ => _) = _
  rw [hplace]
  change (if o.byReference = true then _ else _) = _
  rw [hvalue]
  obtain ⟨offset, ty, size⟩ := place
  cases ty with
  | undefined | array | struct =>
    obtain ⟨bytes, -, h⟩ := bind_eq_ok.mp h
    cases h
  | _ => exact h

theorem Machine.HoldsInt.int_eq {x : Int} (h : m.HoldsInt fp k o x) (ho : n.inputs[i]? = some o) :
    ∃ w, (m.site fp n).int k m.arena i = .ok w ∧ k.toInt w = x := by
  obtain ⟨w, hvalue, hw⟩ := h.holds
  exact ⟨w, Site.int_eq_ok (Site.input_of_value ho h.byValue hvalue), hw⟩

namespace IntegerOp

end IntegerOp

namespace Machine

end Machine

end Execution

end FlatMachine
