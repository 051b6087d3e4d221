import FlatMachine.Proofs.Library

/-!
# What operators see of the memory

An operator is given its inputs and nothing else of the memory: most compute their outputs from the
types, bytes and values of the inputs alone. The others go on from a handle among the inputs to its
object, or draw a random number. `Body.Shape` lists what the operators of the library are.
-/

namespace FlatMachine

namespace Site

variable {s : Site} {a b : Arena}

/-- The inputs of a site are the same in both arenas. -/
structure SameInputs (s : Site) (a b : Arena) : Prop where
  input_eq : ∀ i, s.input b i = s.input a i
  inputTy_eq : ∀ i, s.inputTy b i = s.inputTy a i
  inputBytes_eq : ∀ i, s.inputBytes b i = s.inputBytes a i

namespace SameInputs

theorem inputHandle_eq (h : s.SameInputs a b) (i : Nat) :
    s.inputHandle b i = s.inputHandle a i := by
  simp only [inputHandle, h.inputTy_eq, h.inputBytes_eq]

theorem int_eq (h : s.SameInputs a b) (k : IntKind) (i : Nat) : s.int k b i = s.int k a i := by
  simp only [int, h.input_eq]

theorem float_eq (h : s.SameInputs a b) (k : FloatKind) (i : Nat) :
    s.float k b i = s.float k a i := by
  simp only [float, h.input_eq]

theorem bool_eq (h : s.SameInputs a b) (i : Nat) : s.bool b i = s.bool a i := by
  simp only [bool, h.input_eq]

theorem str_eq (h : s.SameInputs a b) (i : Nat) : s.str b i = s.str a i := by
  simp only [str, h.input_eq]

theorem elementWidth_eq (h : s.SameInputs a b) : s.elementWidth b = s.elementWidth a := by
  simp only [elementWidth, h.inputTy_eq]

theorem elementIndex_eq (h : s.SameInputs a b) (i : Nat) :
    s.elementIndex b i = s.elementIndex a i := by
  simp only [elementIndex, h.int_eq]

end SameInputs

end Site

/-- The outputs are computed from the inputs alone. -/
def Compute.FromInputs (run : Compute) : Prop := ∀ s a b, s.SameInputs a b → run s b = run s a

section Computes

theorem fromInputs_ints (op : BinaryOp) (k : IntKind) : Compute.FromInputs (op.ints k) := by
  intro s a b h
  simp only [BinaryOp.ints, h.int_eq]

theorem fromInputs_floats (op : BinaryOp) (k : FloatKind) :
    Compute.FromInputs (op.floats k) := by
  intro s a b h
  simp only [BinaryOp.floats, h.float_eq]

theorem fromInputs_conjunction : Compute.FromInputs conjunction := by
  intro s a b h
  simp only [conjunction, h.bool_eq]

theorem fromInputs_disjunction : Compute.FromInputs disjunction := by
  intro s a b h
  simp only [disjunction, h.bool_eq]

theorem fromInputs_equality (expected : Bool) : Compute.FromInputs (equality expected) := by
  intro s a b h
  simp only [equality, h.input_eq]

theorem fromInputs_typed {op : BinaryOp} {ty : Ty} {run : Compute}
    (h : op.typed? ty = some run) : run.FromInputs := by
  unfold BinaryOp.typed? at h
  split at h
  · cases h
    exact fromInputs_ints op _
  · split at h
    · cases h
      exact fromInputs_floats op _
    · cases h
  · cases h
    exact fromInputs_equality true
  · cases h
    exact fromInputs_equality false
  · cases h
    exact fromInputs_conjunction
  · cases h
    exact fromInputs_disjunction
  · cases h

theorem fromInputs_generic (op : BinaryOp) : Compute.FromInputs op.generic := by
  intro s a b h
  simp only [BinaryOp.generic, h.inputTy_eq]
  apply bind_congr
  intro ty
  cases hrun : op.typed? ty with
  | none => rfl
  | some run => exact fromInputs_typed hrun s a b h

end Computes

/-- What the operators of the library do. -/
inductive Body.Shape : Body → Prop where
  | fromInputs {run : Compute} (h : run.FromInputs) : Shape (.compute run)
  | length : Shape (.compute Site.objectLength)
  | draw (k : IntKind) : Shape (.act (FlatMachine.draw k))
  | slice (op : SliceOp) : Shape op.body

namespace Primitive

variable {p : Primitive}

theorem shape_of_mem_bools (h : p ∈ boolPrimitives) : p.body.Shape := by
  simp only [boolPrimitives, List.mem_cons, List.not_mem_nil, or_false] at h
  rcases h with rfl | rfl | rfl | rfl | rfl
  · exact .fromInputs fromInputs_conjunction
  · exact .fromInputs fromInputs_disjunction
  · exact .fromInputs (fromInputs_equality true)
  · exact .fromInputs (fromInputs_equality false)
  · exact .fromInputs fun s a b h => by simp only [negation, h.bool_eq]

theorem shape_of_mem_library (h : p ∈ library) : p.body.Shape := by
  cases family_of_mem_library h with
  | identity => exact .fromInputs fun s a b h => by simp only [h.inputBytes_eq]
  | generic op => exact .fromInputs (fromInputs_generic op)
  | bool h => exact shape_of_mem_bools h
  | conversion h =>
    simp only [conversions, List.mem_cons, List.not_mem_nil, or_false] at h
    rcases h with rfl | rfl | rfl | rfl | rfl <;>
      exact .fromInputs fun s a b h => by simp only [h.int_eq, h.float_eq]
  | ints op k => exact .fromInputs (fromInputs_ints op k)
  | int => exact .fromInputs fun s a b h => by simp only [h.int_eq]
  | random k => exact .draw k
  | @floats op _ k => exact .fromInputs (fromInputs_floats op k)
  | float => exact .fromInputs fun s a b h => by simp only [h.float_eq]
  | string h =>
    simp only [stringPrimitives, List.mem_cons, List.not_mem_nil, or_false] at h
    rcases h with rfl | rfl | rfl
    · exact .length
    · exact .fromInputs fun s a b h => by simp only [h.str_eq]
    · exact .fromInputs fun s a b h => by simp only [h.str_eq]
  | slice op => exact .slice op

end Primitive

end FlatMachine
