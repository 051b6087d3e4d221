import FlatMachine.Native.Library

/-!
# The families of the library

An operator is registered for every type of a kind, with the same body but for the type. What holds
of all operators of the library is proved for one family after another.
-/

namespace FlatMachine

theorem BinaryOp.mem_all (op : BinaryOp) : op ∈ all := by
  cases op with
  | compare c => cases c <;> decide
  | _ => decide

theorem BinaryOp.mem_generics (op : BinaryOp) : op ∈ generics := by
  cases op with
  | compare c => cases c <;> decide
  | _ => decide

theorem SliceOp.mem_all (op : SliceOp) : op ∈ all := by
  cases op <;> decide

theorem IntKind.mem_all (k : IntKind) : k ∈ all := by
  cases k <;> decide

theorem FloatKind.mem_all (k : FloatKind) : k ∈ all := by
  cases k <;> decide

namespace Primitive

/-- The families that the operators of the library belong to. -/
inductive Family : Primitive → Prop where
  | identity : Family FlatMachine.identity
  | generic (op : BinaryOp) : Family op.genericPrimitive
  | bool {p : Primitive} (h : p ∈ boolPrimitives) : Family p
  | conversion {p : Primitive} (h : p ∈ conversions) : Family p
  | ints (op : BinaryOp) (k : IntKind) : Family (op.intPrimitive k)
  | int (op : IntUnary) (k : IntKind) : Family (op.primitive k)
  | random (k : IntKind) :
    Family ⟨s!"{k.name}.rand", .of [.int k, .int k] [.int k], .act (draw k)⟩
  | floats {op : BinaryOp} (h : op.hasFloats = true) (k : FloatKind) : Family (op.floatPrimitive k)
  | float (op : FloatUnary) (k : FloatKind) : Family (op.primitive k)
  | string {p : Primitive} (h : p ∈ stringPrimitives) : Family p
  | slice (op : SliceOp) {elem : Ty} (h : elem ∈ SliceOp.elementTypes) : Family (op.primitive elem)

variable {p : Primitive}

theorem family_of_mem_ints {k : IntKind} (h : p ∈ k.primitives) : p.Family := by
  simp only [IntKind.primitives, List.mem_append, List.mem_map, List.mem_singleton] at h
  rcases h with (⟨op, -, rfl⟩ | ⟨op, -, rfl⟩) | rfl
  · exact .ints op k
  · exact .int op k
  · exact .random k

theorem family_of_mem_floats {k : FloatKind} (h : p ∈ k.primitives) : p.Family := by
  simp only [FloatKind.primitives, List.mem_append, List.mem_map, List.mem_filter] at h
  rcases h with ⟨op, ⟨-, hop⟩, rfl⟩ | ⟨op, -, rfl⟩
  · exact .floats hop k
  · exact .float op k

theorem family_of_mem_library (h : p ∈ library) : p.Family := by
  simp only [library, List.cons_append, List.mem_cons, List.mem_append, List.mem_map,
    List.mem_flatMap, SliceOp.primitives] at h
  rcases h with
    rfl | (((((⟨op, -, rfl⟩ | h) | h) | ⟨k, -, h⟩) | ⟨k, -, h⟩) | h) | ⟨elem, helem, op, -, rfl⟩
  · exact .identity
  · exact .generic op
  · exact .bool h
  · exact .conversion h
  · exact family_of_mem_ints h
  · exact family_of_mem_floats h
  · exact .string h
  · exact .slice op helem

theorem mem_library_of_mem_ints {k : IntKind} (h : p ∈ k.primitives) : p ∈ library := by
  have hmem : p ∈ IntKind.all.flatMap (·.primitives) := List.mem_flatMap.mpr ⟨k, k.mem_all, h⟩
  simp only [library, List.mem_append, hmem, or_true, true_or]

theorem mem_library_of_mem_floats {k : FloatKind} (h : p ∈ k.primitives) : p ∈ library := by
  have hmem : p ∈ FloatKind.all.flatMap (·.primitives) := List.mem_flatMap.mpr ⟨k, k.mem_all, h⟩
  simp only [library, List.mem_append, hmem, or_true, true_or]

/-- Every operator of a family is in the library. -/
theorem Family.mem_library (h : p.Family) : p ∈ library := by
  cases h with
  | identity => exact List.mem_cons_self
  | generic op =>
    have hmem : op.genericPrimitive ∈ BinaryOp.generics.map (·.genericPrimitive) :=
      List.mem_map_of_mem op.mem_generics
    simp only [library, List.mem_append, List.mem_cons, List.cons_append, hmem, or_true, true_or]
  | bool h => simp only [library, List.mem_append, h, or_true, true_or]
  | conversion h => simp only [library, List.mem_append, h, or_true, true_or]
  | ints op k =>
    apply mem_library_of_mem_ints (k := k)
    exact List.mem_append_left _ (List.mem_append_left _ (List.mem_map_of_mem op.mem_all))
  | int op k =>
    have hop : op ∈ [IntUnary.neg, .abs] := by cases op <;> decide
    apply mem_library_of_mem_ints (k := k)
    exact List.mem_append_left _ (List.mem_append_right _ (List.mem_map_of_mem hop))
  | random k =>
    apply mem_library_of_mem_ints (k := k)
    exact List.mem_append_right _ List.mem_cons_self
  | @floats op h k =>
    apply mem_library_of_mem_floats (k := k)
    exact List.mem_append_left _ (List.mem_map_of_mem (List.mem_filter.mpr ⟨op.mem_all, h⟩))
  | float op k =>
    have hop : op ∈ [FloatUnary.neg, .abs, .sqrt] := by cases op <;> decide
    apply mem_library_of_mem_floats (k := k)
    exact List.mem_append_right _ (List.mem_map_of_mem hop)
  | string h => simp only [library, List.mem_append, h, or_true, true_or]
  | @slice op elem h =>
    have hmem : op.primitive elem ∈ SliceOp.primitives :=
      List.mem_flatMap.mpr ⟨elem, h, List.mem_map_of_mem op.mem_all⟩
    exact List.mem_append_right _ hmem

end Primitive

end FlatMachine
