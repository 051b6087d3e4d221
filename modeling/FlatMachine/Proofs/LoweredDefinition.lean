import FlatMachine.Proofs.LayoutCongruence
import FlatMachine.Proofs.LoweredNodes

/-!
# Lowered short declarations

`x := value` declares `x` with a type that lowering reads off the last node of the value, and goes
on as the plain assignment: the last node writes `x`, or the initialisers of a literal write its
parts.
-/

namespace FlatMachine

open FlatMachine.Action

/-- The type of a struct literal, by the output of its last field. -/
def Operand.literalTy (o : Operand) (struct : String) : Ty :=
  if o.literalPointer then .pointer (.struct struct) else .struct struct

/-- What becomes of a node of a literal: an initialiser is directed to a part of the target, which
belongs to what it wrote. -/
inductive Node.Directed (kind : Node → Bool) (Part : Operand → Operand → Prop) (n : Node) :
    Node → Prop where
  | kept (hkind : kind n = false) : Directed kind Part n n
  | part {o p : Operand} (hkind : kind n = true) (houtputs : n.outputs = [o]) (hpart : Part o p) :
      Directed kind Part n { n with outputs := [p] }

theorem Node.modifyOutput_single {n : Node} {f : Operand → Operand} {o : Operand}
    (h : n.outputs = [o]) : n.modifyOutput f = { n with outputs := [f o] } := by
  rw [modifyOutput, h]
  rfl

namespace Operand.Names

variable {t : Operand} {name : String} {ty : Ty}

theorem marked (h : t.Names name ty) : t.marked.Names name ty :=
  ⟨h.name_eq, h.chain_eq, h.unassigned, h.ty_eq⟩

theorem byReference (h : t.Names name ty) : Operand.Names { t with byReference := true } name ty :=
  ⟨h.name_eq, h.chain_eq, h.unassigned, h.ty_eq⟩

theorem shortSymbol (h : t.Names name ty) (lw : Lowering) : (lw.shortSymbol t ty).Names name ty :=
  ⟨h.name_eq, rfl, rfl, fun _ => rfl⟩

end Operand.Names

namespace Lowering

variable {lw lw' : Lowering} {base output t : Operand} {target : List Node} {node last n : Node}
  {value earlier ns fields : List Node} {name struct : String} {copy : Operator} {ty : Ty}

section Read

theorem declaredTy_operand (hop : last.operator = none) (hfield : last.isStructField = false)
    (helement : last.isArrayElement = false) (houtput : last.outputs.head? = some output)
    (earlier : List Node) : lw.declaredTy (earlier ++ [last]) = lw.knownTy output := by
  unfold declaredTy
  rw [List.getLast?_concat]
  change (if last.isStructField = true then _ else _) = _
  rw [if_neg (by simp [hfield]), if_neg (by simp [helement]), if_pos (by simp [Node.isBare, hop]),
    houtput]
  rfl

variable (hlast : value.getLast? = some last) (houtput : last.outputs.head? = some output)

include hlast houtput

theorem declaredTy_struct (hkind : last.isStructField = true)
    (hstruct : output.structName = some struct) :
    lw.declaredTy value = .ok (output.literalTy struct) := by
  unfold declaredTy
  rw [hlast]
  change (if last.isStructField = true then _ else _) = _
  rw [if_pos hkind, houtput]
  change (require output.structName _ >>= _) = _
  rw [hstruct]
  rfl

theorem declaredTy_array (hfield : last.isStructField = false)
    (hkind : last.isArrayElement = true) : lw.declaredTy value =
      if output.ty.isDefined then .ok output.ty else lw.firstInputTy last >>= fun elem =>
        .ok (.array elem (UInt32.ofNat (value.filter (·.isArrayElement)).length)) := by
  unfold declaredTy
  rw [hlast]
  change (if last.isStructField = true then _ else _) = _
  rw [if_neg (by simp [hfield]), if_pos hkind, houtput]
  cases output
  rfl

end Read

section Target

/-- The target of a short declaration, behind the declaration of its symbol. -/
def declaring (lw : Lowering) (target : Node) (t : Operand) (ty : Ty) : List Node :=
  [lw.declaration (lw.shortSymbol t ty), target.modifyOutput .marked]

variable (ht : node.outputs = [t]) (hty : lw.declaredTy value = .ok ty)
  (hlast : value.getLast? = some last)

include ht

theorem target?_declaring (lw : Lowering) (ty : Ty) :
    target? (lw.declaring node t ty) = some t.marked := by
  change (node.modifyOutput .marked).outputs.head? = _
  rw [Node.modifyOutput_single ht]
  rfl

include hty

theorem declareTarget_eq_declaring :
    lw.declareTarget [node] value = .ok (lw.declaring node t ty) :=
  (declareTarget_concat ht : lw.declareTarget ([] ++ [node]) value = _ ↔ _).mpr ⟨ty, hty, rfl⟩

include hlast

theorem assignment_define_struct (hkind : last.isStructField = true)
    (hfields : structLiteralAssignment (lw.declaring node t ty) value lw = .ok fields lw') :
    assignment [node] .define value lw =
      .ok (lw.declaration (lw.shortSymbol t ty) :: fields) lw' :=
  assignment_define_eq_ok.mpr
    ⟨_, last, declareTarget_eq_declaring ht hty, hlast, .struct hkind hfields rfl⟩

theorem assignment_define_array (hfield : last.isStructField = false)
    (hkind : last.isArrayElement = true) (hns : assignElements t.marked 0 value = .ok ns) :
    assignment [node] .define value lw = .ok (lw.declaration (lw.shortSymbol t ty) :: ns) lw := by
  have helements : arrayLiteralAssignment (lw.declaring node t ty) value = .ok ns :=
    bind_eq_ok.mpr ⟨_, require_eq_ok.mpr (target?_declaring ht lw ty), hns⟩
  exact assignment_define_eq_ok.mpr
    ⟨_, last, declareTarget_eq_declaring ht hty, hlast, .array hfield hkind helements rfl rfl⟩

end Target

/-- The short declaration of a value that the last node gives to its target. What that node tells
of the type has to be what is declared. -/
theorem assignment_define_retarget {r : Retarget}
    (hcopy : lw.primitives.operator "identity" = .ok copy)
    (hfield : n.isStructField = false) (helement : n.isArrayElement = false)
    (ht : node.outputs = [t]) (hname : t.Names name ty)
    (hty : lw.declaredTy (earlier ++ [n]) = .ok ty) (hr : lw.retargetNode copy n = .ok r)
    (hknown : r.ty.isDefined = true → r.ty = ty) :
    ∃ symbol written, symbol.ty = ty ∧ symbol.Names name ty ∧ written.Names name ty ∧
      assignment [node] .define (earlier ++ [n]) lw =
        .ok (lw.declaration symbol :: (earlier ++ [{ r.node with outputs := [written] }])) lw := by
  have hlast : (earlier ++ [n]).getLast? = some n := List.getLast?_concat
  have hmarked : (node.modifyOutput .marked).outputs = [t.marked] := by
    rw [Node.modifyOutput_single ht]
  have hretarget := retarget_eq_ok.mpr ⟨copy, n, r, node.modifyOutput .marked, t.marked, [], hcopy,
    hlast, hr, (rfl : (lw.declaring node t ty).getLast? = _), hmarked, rfl⟩
  let symbol : Operand := { lw.shortSymbol t ty with
    ty := if r.ty.isDefined then r.ty else ty, escapes := r.escapes }
  have hretyped : retypeDeclaration t.marked r.ty r.escapes
      [lw.declaration (lw.shortSymbol t ty)] = [lw.declaration symbol] := by
    change [lw.declaration (if (t.name == t.name && true) = true then symbol else _)] = _
    rw [if_pos (by simp)]
  have hsymbol : symbol.ty = ty := by
    change (if r.ty.isDefined = true then r.ty else ty) = ty
    split
    · exact hknown ‹_›
    · rfl
  refine ⟨symbol, r.written t.marked, hsymbol, ⟨hname.name_eq, rfl, rfl, fun _ => hsymbol⟩,
    ⟨hname.name_eq, hname.chain_eq, hname.unassigned, ?_⟩, ?_⟩
  · intro hdefined
    unfold Retarget.written at hdefined ⊢
    split
    · rename_i hkeeps
      exact hknown (Bool.and_eq_true_iff.mp hkeeps).2
    · rename_i hkeeps
      rw [if_neg hkeeps] at hdefined
      exact hname.ty_eq hdefined
  · have hassigns := assignment_define_eq_ok.mpr
      ⟨_, n, declareTarget_eq_declaring ht hty, hlast, .other hfield helement hretarget rfl⟩
    rw [List.dropLast_concat] at hassigns
    rw [hassigns]
    exact congrArg (fun front => EStateM.Result.ok (front ++ earlier ++ _) lw) hretyped

section Literals

theorem exists_assignFields (base : Operand)
    (h : ∀ n ∈ value, n.isStructField = true → ∃ o, n.outputs = [o]) :
    ∃ ns, assignFields base value = .ok ns ∧ List.Forall₂ (Node.Directed (·.isStructField)
      fun o p => p.PartOf base (.field { name := o.name })) value ns := by
  induction value with
  | nil => exact ⟨[], rfl, .nil⟩
  | cons n value ih =>
    rw [List.forall_mem_cons] at h
    obtain ⟨ns, hns, hrest⟩ := ih h.2
    unfold assignFields
    by_cases hkind : n.isStructField = true
    · obtain ⟨o, ho⟩ := h.1 hkind
      rw [if_pos hkind, ho, hns]
      refine ⟨_, rfl, .cons ?_ hrest⟩
      rw [Node.modifyOutput_single ho]
      exact .part hkind ho ⟨rfl, rfl, rfl, rfl, rfl⟩
    · rw [if_neg hkind, hns]
      exact ⟨_, rfl, .cons (.kept (by simpa using hkind)) hrest⟩

theorem exists_assignElements (base : Operand) (i : Nat)
    (h : ∀ n ∈ value, n.isArrayElement = true → ∃ o, n.outputs = [o]) :
    ∃ ns, assignElements base i value = .ok ns ∧ List.Forall₂ (Node.Directed (·.isArrayElement)
      fun _ p => ∃ j, p.PartOf base (.index (.const j))) value ns := by
  induction value generalizing i with
  | nil => exact ⟨[], rfl, .nil⟩
  | cons n value ih =>
    rw [List.forall_mem_cons] at h
    unfold assignElements
    by_cases hkind : n.isArrayElement = true
    · obtain ⟨ns, hns, hrest⟩ := ih (i + 1) h.2
      obtain ⟨o, ho⟩ := h.1 hkind
      rw [if_pos hkind, if_neg (by simp [ho]), hns]
      refine ⟨_, rfl, .cons ?_ hrest⟩
      rw [Node.modifyOutput_single ho]
      exact .part hkind ho ⟨i, rfl, rfl, rfl, rfl, rfl⟩
    · obtain ⟨ns, hns, hrest⟩ := ih i h.2
      rw [if_neg hkind, hns]
      exact ⟨_, rfl, .cons (.kept (by simpa using hkind)) hrest⟩

variable (ht : target? target = some t) (hlast : value.getLast? = some last)
  (houtput : last.outputs.head? = some output)

include ht hlast houtput

theorem structLiteralAssignment_value (hliteral : output.literalPointer = false)
    (hfields : assignFields t value = .ok fields) :
    structLiteralAssignment target value lw = .ok fields lw := by
  simp only [structLiteralAssignment, get_bind_apply, ht, hlast, houtput, hliteral, hfields,
    require, ofExcept_ok_bind, Option.bind_some]
  rfl

theorem structLiteralAssignment_pointer (hliteral : output.literalPointer = true)
    (hstruct : output.structName = some struct)
    (hfields : assignFields (lw.auxiliary struct) value = .ok fields)
    (hcopy : lw.primitives.operator "identity" = .ok copy) :
    structLiteralAssignment target value lw = .ok (lw.declaration (lw.auxiliary struct) ::
      (fields ++ [{ lw.node copy with
        inputs := [lw.auxiliary struct], outputs := [{ t with byReference := true }] }]))
      { lw with freshNames := lw.freshNames + 1 } := by
  simp only [structLiteralAssignment, get_bind_apply, ht, hlast, houtput, hliteral, hstruct,
    require, ofExcept_ok_bind, Option.bind_some, if_true]
  refine seq_eq_ok.mpr ⟨_, _, rfl, seq_eq_ok.mpr ⟨_, _, ofExcept_eq_ok.mpr ⟨hfields, rfl⟩,
    seq_eq_ok.mpr ⟨_, _, ofExcept_eq_ok.mpr ⟨hcopy, rfl⟩, rfl⟩⟩⟩

end Literals

end Lowering

end FlatMachine
