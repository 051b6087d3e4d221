import FlatMachine.Proofs.WindowOperators

/-!
# Operators respect their signatures

At a site with types that its signature admits, every operator that comes with the machine does its
work. The equality of any two values is the one operator whose signature admits more than it can
handle: it has to be asked for types that can be read as a whole.
-/

namespace FlatMachine

open FlatMachine.Action

/-- The type of an output, if it is fixed by the signature and the type of the first input. -/
def Param.expected? (p : Param) (first : Option Ty) : Option Ty :=
  if p.ty.isDefined then some p.ty else first

/-- The types of inputs and outputs that a signature admits. There may be fewer outputs. -/
structure Signature.Admits (signature : Signature) (ins outs : List Ty) : Prop where
  inputs : List.Forall₂ (fun p ty => p.accepts ty = true ∧
    (p.sameAsFirst = true → ins.head? = some ty)) signature.inputs ins
  outputs : List.Forall₂ (fun p ty => ∀ expected, p.expected? ins.head? = some expected →
    ty = expected) (signature.outputs.take outs.length) outs

theorem eq_of_forall₂ {R : Ty → Ty → Prop} {tys tys' : List Ty} (h : List.Forall₂ R tys tys')
    (hR : ∀ ty ∈ tys, ∀ ty', R ty ty' → ty' = ty) : tys' = tys := by
  induction h with
  | nil => rfl
  | cons hab _ ih =>
    rw [List.forall_mem_cons] at hR
    rw [hR.1 _ hab, ih hR.2]

/-- A signature that fixes all types admits these types only. -/
theorem Signature.Admits.eq_of {ins outs tys results : List Ty}
    (h : (Signature.of tys results).Admits ins outs) (hins : ∀ ty ∈ tys, ty.isDefined = true)
    (houts : ∀ ty ∈ results, ty.isDefined = true) :
    ins = tys ∧ outs = results.take outs.length := by
  obtain ⟨hinputs, houtputs⟩ := h
  constructor
  · rw [Signature.of, List.forall₂_map_left_iff] at hinputs
    apply eq_of_forall₂ hinputs
    intro ty hmem ty' hty
    have hdefined : (Param.of ty).ty.isDefined = true := hins ty hmem
    have haccepts := hty.1
    rw [Param.accepts, if_pos hdefined] at haccepts
    exact (beq_iff_eq.mp haccepts).symm
  · rw [Signature.of, ← List.map_take, List.forall₂_map_left_iff] at houtputs
    apply eq_of_forall₂ houtputs
    intro ty hmem ty' hty
    refine hty ty ?_
    have hdefined : (Param.of ty).ty.isDefined = true := houts ty (List.mem_of_mem_take hmem)
    rw [Param.expected?, if_pos hdefined]
    rfl

/-- A generic operator is admitted on two inputs of one type that it accepts, and for its answer. -/
theorem Signature.Admits.generic {op : BinaryOp} {ins outs : List Ty}
    (h : op.genericPrimitive.signature.Admits ins outs)
    (hlen : outs.length = op.genericPrimitive.signature.outputs.length) :
    ∃ ty, ins = [ty, ty] ∧ outs = [op.resultTy ty] ∧ op.genericParam.accepts ty = true := by
  obtain ⟨hins, houts⟩ := h
  obtain ⟨ty, rest, ⟨haccepts, -⟩, hrest, rfl⟩ := List.forall₂_cons_left_iff.mp hins
  obtain ⟨ty', rest', ⟨-, hty'⟩, hrest', rfl⟩ := List.forall₂_cons_left_iff.mp hrest
  obtain rfl := List.forall₂_nil_left_iff.mp hrest'
  obtain rfl : ty = ty' := Option.some.inj (hty' rfl)
  obtain ⟨result, rfl⟩ := List.length_eq_one_iff.mp hlen
  obtain ⟨result', rest'', hresult, -, heq⟩ := List.forall₂_cons_left_iff.mp houts
  cases heq
  have hanswer : result = op.resultTy ty := by
    apply hresult _
    unfold BinaryOp.resultTy
    split <;> rfl
  exact ⟨ty, rfl, by rw [hanswer], haccepts⟩

namespace Primitive

variable {p : Primitive} {tys results : List Ty} {elem : Ty}

/-- The operator compares two values of any type. -/
def ComparesAny (p : Primitive) : Prop := p.name = "und.eq" ∨ p.name = "und.uneq"

/-- The body serves all types that the signature admits. -/
def RespectsSignature (p : Primitive) : Prop :=
  ∀ ins outs, p.signature.Admits ins outs → outs.length = p.signature.outputs.length →
    (p.ComparesAny → ∀ ty ∈ ins, ty.isReadable = true) → p.body.Serves ins outs

theorem respectsSignature_of (hsig : p.signature = .of tys results) (h : p.body.Serves tys results)
    (hdefined : ∀ ty ∈ tys ++ results, ty.isDefined = true) : p.RespectsSignature := by
  intro ins outs hadmits hlen _
  rw [hsig] at hadmits hlen
  rw [List.forall_mem_append] at hdefined
  obtain ⟨rfl, houts⟩ := hadmits.eq_of hdefined.1 hdefined.2
  rw [Signature.of, List.length_map] at hlen
  rw [hlen, List.take_length] at houts
  subst houts
  exact h

theorem respectsSignature_identity : identity.RespectsSignature := by
  rintro ins outs ⟨hins, houts⟩ hlen -
  obtain ⟨ty, rest, -, hrest, rfl⟩ := List.forall₂_cons_left_iff.mp hins
  obtain rfl := List.forall₂_nil_left_iff.mp hrest
  obtain ⟨result, rfl⟩ := List.length_eq_one_iff.mp hlen
  obtain ⟨result', rest', hresult, -, heq⟩ := List.forall₂_cons_left_iff.mp houts
  cases heq
  obtain rfl : result = ty := hresult ty rfl
  apply Compute.Serves.body
  intro s a hs
  simp only [gives_bind]
  apply (hs.inputBytes rfl).imp
  intro bytes hbytes
  refine Site.gives_stage Site.fit_noOutputs ?_
  rintro ty' ⟨⟩
  exact hbytes

theorem isReadable_of_mem_scalarTypes {ty : Ty} (h : ty ∈ BinaryOp.scalarTypes) :
    ty.isReadable = true := by
  simp only [BinaryOp.scalarTypes, List.mem_append, List.mem_map, List.mem_singleton] at h
  rcases h with (⟨k, -, rfl⟩ | ⟨k, -, rfl⟩) | rfl <;> rfl

/-- The restriction on the first input leaves the types that have a typed operator. -/
theorem genericParam_accepts {op : BinaryOp} {ty : Ty} (h : op.genericParam.accepts ty = true)
    (hany : op.genericPrimitive.ComparesAny → ty.isReadable = true) :
    ty.isReadable = true ∧ (op.typed? ty).isSome = true := by
  unfold BinaryOp.genericParam at h
  split at h
  · refine ⟨hany (.inl rfl), ?_⟩
    cases ty <;> rfl
  · refine ⟨hany (.inr rfl), ?_⟩
    cases ty <;> rfl
  · have hi8 : Ty.i8 ∈ BinaryOp.scalarTypes.filter fun ty => (op.typed? ty).isSome :=
      List.mem_filter.mpr ⟨by decide, rfl⟩
    have hne : (BinaryOp.scalarTypes.filter fun ty => (op.typed? ty).isSome).isEmpty = false :=
      List.isEmpty_eq_false_iff.mpr (List.ne_nil_of_mem hi8)
    have haccepts :
        (BinaryOp.scalarTypes.filter fun ty => (op.typed? ty).isSome).contains ty = true := by
      simpa only [Param.accepts, Param.any, Param.of, Ty.isDefined, Bool.false_eq_true, if_false,
        hne, Bool.false_or] using h
    obtain ⟨hscalar, hsome⟩ := List.mem_filter.mp (List.contains_iff_mem.mp haccepts)
    exact ⟨isReadable_of_mem_scalarTypes hscalar, hsome⟩

theorem respectsSignature_generic (op : BinaryOp) : op.genericPrimitive.RespectsSignature := by
  intro ins outs hadmits hlen hany
  obtain ⟨ty, rfl, rfl, haccepts⟩ := hadmits.generic hlen
  obtain ⟨hread, hsome⟩ := genericParam_accepts haccepts fun h => hany h ty List.mem_cons_self
  exact (BinaryOp.serves_generic hread hsome).body

theorem elementType_facts {elem : Ty} (h : elem ∈ SliceOp.elementTypes) :
    elem.isDefined = true ∧ (elem.isScalar = true ∨ elem = .str) ∧
      ∃ width, elem.elementWidth = .ok width := by
  simp only [SliceOp.elementTypes, List.mem_append, List.mem_map, List.mem_cons,
    List.not_mem_nil, or_false] at h
  rcases h with (⟨k, -, rfl⟩ | ⟨k, -, rfl⟩) | rfl | rfl
  · exact ⟨rfl, .inl rfl, _, rfl⟩
  · exact ⟨rfl, .inl rfl, _, rfl⟩
  · exact ⟨rfl, .inl rfl, _, rfl⟩
  · exact ⟨rfl, .inr rfl, _, rfl⟩

theorem respectsSignature_slice {elem : Ty} (op : SliceOp) (h : elem ∈ SliceOp.elementTypes) :
    (op.primitive elem).RespectsSignature := by
  obtain ⟨hdefined, -, width, hwidth⟩ := elementType_facts h
  have hall : ∀ tys : List Ty, (∀ ty ∈ tys, ty = .slice elem ∨ ty = elem ∨ ty = .i32) →
      ∀ ty ∈ tys, ty.isDefined = true := by
    intro tys htys ty hty
    rcases htys ty hty with rfl | rfl | rfl
    · rfl
    · exact hdefined
    · rfl
  cases op with
  | len =>
    have hlen := SliceOp.serves_objectLength (rfl : (Ty.slice elem).isHandle = true)
    exact respectsSignature_of rfl hlen.body (hall _ (by simp))
  | append => exact respectsSignature_of rfl (SliceOp.serves_append hwidth) (hall _ (by simp))
  | concat => exact respectsSignature_of rfl (SliceOp.serves_concat hwidth) (hall _ (by simp))
  | copy => exact respectsSignature_of rfl (SliceOp.serves_copy hwidth) (hall _ (by simp))
  | read => exact respectsSignature_of rfl (SliceOp.serves_read hwidth).body (hall _ (by simp))
  | write => exact respectsSignature_of rfl (SliceOp.serves_write hwidth) (hall _ (by simp))

theorem respectsSignature_window (op : Window.Op) : op.primitive.RespectsSignature := by
  cases op <;> exact respectsSignature_of rfl (Window.serves_op _) (by decide)

theorem isDefined_binary {op : BinaryOp} {ty : Ty} (h : ty.isDefined = true) :
    ∀ x ∈ [ty, ty] ++ [op.resultTy ty], x.isDefined = true := by
  unfold BinaryOp.resultTy
  split
  · have hbool : Ty.bool.isDefined = true := rfl
    simp [h, hbool]
  · simp [h]

theorem respectsSignature_int (op : IntUnary) (k : IntKind) :
    (op.primitive k).RespectsSignature := by
  have hserves : (op.primitive k).body.Serves [.int k] [.int k] :=
    (serves_ofInt fun _ => rfl).body
  exact respectsSignature_of rfl hserves (by simp [Ty.isDefined])

theorem respectsSignature_float (op : FloatUnary) (k : FloatKind) :
    (op.primitive k).RespectsSignature := by
  have hserves : (op.primitive k).body.Serves [.float k] [.float k] :=
    (serves_ofFloat fun _ => rfl).body
  exact respectsSignature_of rfl hserves (by simp [Ty.isDefined])

theorem respectsSignature_of_mem_bools (h : p ∈ boolPrimitives) : p.RespectsSignature := by
  have hread : Ty.bool.isReadable = true := rfl
  simp only [boolPrimitives, List.mem_cons, List.not_mem_nil, or_false] at h
  rcases h with rfl | rfl | rfl | rfl | rfl
  · exact respectsSignature_of rfl serves_conjunction.body (by decide)
  · exact respectsSignature_of rfl serves_disjunction.body (by decide)
  · exact respectsSignature_of rfl (serves_equality true hread).body (by decide)
  · exact respectsSignature_of rfl (serves_equality false hread).body (by decide)
  · exact respectsSignature_of rfl serves_negation.body (by decide)

theorem respectsSignature_of_mem_conversions (h : p ∈ conversions) : p.RespectsSignature := by
  simp only [conversions, List.mem_cons, List.not_mem_nil, or_false] at h
  rcases h with rfl | rfl | rfl | rfl | rfl
  · exact respectsSignature_of rfl (serves_ofInt fun _ => rfl).body (by decide)
  · exact respectsSignature_of rfl (serves_ofInt fun _ => rfl).body (by decide)
  · exact respectsSignature_of rfl (serves_ofInt fun _ => rfl).body (by decide)
  · exact respectsSignature_of rfl (serves_ofFloat fun _ => rfl).body (by decide)
  · exact respectsSignature_of rfl (serves_ofInt fun _ => rfl).body (by decide)

theorem respectsSignature_of_mem_strings (h : p ∈ stringPrimitives) : p.RespectsSignature := by
  simp only [stringPrimitives, List.mem_cons, List.not_mem_nil, or_false] at h
  rcases h with rfl | rfl | rfl
  · have hlen := SliceOp.serves_objectLength (rfl : Ty.str.isHandle = true)
    exact respectsSignature_of rfl hlen.body (by decide)
  · exact respectsSignature_of rfl (serves_ofStrs fun _ _ => rfl).body (by decide)
  · exact respectsSignature_of rfl (serves_ofStrs fun _ _ => rfl).body (by decide)

theorem respectsSignature_of_mem_library (h : p ∈ library) : p.RespectsSignature := by
  cases family_of_mem_library h with
  | identity => exact respectsSignature_identity
  | generic op => exact respectsSignature_generic op
  | bool h => exact respectsSignature_of_mem_bools h
  | conversion h => exact respectsSignature_of_mem_conversions h
  | ints op k => exact respectsSignature_of rfl (BinaryOp.serves_ints k).body (isDefined_binary rfl)
  | int op k => exact respectsSignature_int op k
  | random k => exact respectsSignature_of rfl (serves_draw k) (by simp [Ty.isDefined])
  | floats hop k =>
    exact respectsSignature_of rfl (BinaryOp.serves_floats k hop).body (isDefined_binary rfl)
  | float op k => exact respectsSignature_float op k
  | string h => exact respectsSignature_of_mem_strings h
  | slice op helem => exact respectsSignature_slice op helem

theorem Shipped.respectsSignature (h : p.Shipped) : p.RespectsSignature := by
  rcases h.cases with h | ⟨op, rfl⟩
  · exact respectsSignature_of_mem_library h
  · exact respectsSignature_window op

/-- A primitive does its work at a site that its signature admits. -/
theorem RespectsSignature.ends_execute (h : p.RespectsSignature) {s : Site} {w : Workspace}
    {ins outs : List Ty} (hs : s.Typed ins outs) (hadmits : p.signature.Admits ins outs)
    (hlen : outs.length = p.signature.outputs.length)
    (hany : p.ComparesAny → ∀ ty ∈ ins, ty.isReadable = true) :
    Ends (p.execute s) w (fun _ _ => True) (fun e _ => e.Dynamic) := by
  simp only [execute, ends_bind, Workspace.ends_onArena]
  exact (h ins outs hadmits hlen hany s w hs).imp fun slots w' hslots => hs.ends_commit hslots

end Primitive

end FlatMachine
