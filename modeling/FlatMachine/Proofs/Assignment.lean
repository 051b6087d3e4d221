import FlatMachine.Lowering.Assignment
import FlatMachine.Proofs.Relational

/-!
# Lowered assignments

What lowering makes of an assignment. A short declaration declares its targets and goes on as the
plain assignment of the same value. Unless the value is a literal, a plain assignment ends in a node
that gives the value to the targets.
-/

namespace FlatMachine

open FlatMachine.Action

/-- The target of a short declaration as it stands behind the declaration. -/
def Operand.marked (o : Operand) : Operand := { o with declared := true, shortDeclared := true }

namespace Lowering

section Plain

variable {target value ns : List Node} {lw lw' : Lowering}

/-- What a plain assignment is lowered to, by what its last value node is for. -/
inductive Assigns (lw lw' : Lowering) (target value : List Node) (last : Node) (ns : List Node) :
    Prop where
  | struct {fields : List Node} (hlast : last.isStructField = true)
      (hfields : structLiteralAssignment target value lw = .ok fields lw')
      (hns : ns = target.dropLast ++ fields)
  | array {elements : List Node} (hstruct : last.isStructField = false)
      (hlast : last.isArrayElement = true)
      (helements : arrayLiteralAssignment target value = .ok elements) (hlw : lw' = lw)
      (hns : ns = target.dropLast ++ elements)
  | other (hstruct : last.isStructField = false) (harray : last.isArrayElement = false)
      (hns : lw.retarget target value = .ok ns) (hlw : lw' = lw)

theorem assigns_iff {last : Node} : Assigns lw lw' target value last ns ↔
    (if last.isStructField = true then do
      return target.dropLast ++ (← structLiteralAssignment target value)
    else if last.isArrayElement = true then do
      return target.dropLast ++ (← Action.ofExcept (arrayLiteralAssignment target value))
    else Action.ofExcept (lw.retarget target value) : Action Lowering (List Node)) lw =
      .ok ns lw' := by
  constructor
  · rintro (⟨hlast, hfields, rfl⟩ | ⟨hstruct, hlast, helements, rfl, rfl⟩ |
      ⟨hstruct, harray, hns, rfl⟩)
    · rw [if_pos hlast]
      exact seq_eq_ok.mpr ⟨_, _, hfields, rfl⟩
    · rw [if_neg (by simp [hstruct]), if_pos hlast]
      exact seq_eq_ok.mpr ⟨_, _, ofExcept_eq_ok.mpr ⟨helements, rfl⟩, rfl⟩
    · rw [if_neg (by simp [hstruct]), if_neg (by simp [harray])]
      exact ofExcept_eq_ok.mpr ⟨hns, rfl⟩
  · intro h
    split at h
    · rename_i hlast
      obtain ⟨fields, _, hfields, hns⟩ := seq_eq_ok.mp h
      cases hns
      exact .struct hlast hfields rfl
    split at h
    · rename_i hstruct hlast
      obtain ⟨elements, _, harray, hns⟩ := seq_eq_ok.mp h
      obtain ⟨helements, rfl⟩ := ofExcept_eq_ok.mp harray
      cases hns
      exact .array (by simpa using hstruct) hlast helements rfl rfl
    · rename_i hstruct harray
      obtain ⟨hns, rfl⟩ := ofExcept_eq_ok.mp h
      exact .other (by simpa using hstruct) (by simpa using harray) hns rfl

/-- A plain assignment has a target and a value and goes by the last node of the value. -/
theorem assignment_assign_eq_ok : assignment target .assign value lw = .ok ns lw' ↔
    ∃ o last, target? target = some o ∧ value.getLast? = some last ∧
      Assigns lw lw' target value last ns := by
  unfold assignment
  simp only [get_bind_apply]
  cases target? target with
  | none => simp [require, invalid, Action.ofExcept, Bind.bind, EStateM.bind]
  | some o =>
    cases value.getLast? with
    | none => simp [require, invalid, Action.ofExcept, Bind.bind, EStateM.bind]
    | some last =>
      simp [require, ofExcept_ok_bind, assigns_iff, AssignOp.isCompound, AssignOp.primitive?]

/-- A short declaration puts a declaration ahead of the target, and goes on as the plain one. -/
theorem assignment_define_eq_ok : assignment target .define value lw = .ok ns lw' ↔
    ∃ target' last, lw.declareTarget target value = .ok target' ∧ value.getLast? = some last ∧
      Assigns lw lw' target' value last ns := by
  unfold assignment
  simp only [get_bind_apply]
  cases htarget : target? target with
  | none =>
    simp [require, invalid, Action.ofExcept, Bind.bind, EStateM.bind, declareTarget, htarget,
      Except.bind]
  | some o =>
    cases value.getLast? with
    | none => simp [require, invalid, Action.ofExcept, Bind.bind, EStateM.bind]
    | some last =>
      cases lw.declareTarget target value with
      | error e =>
        simp [require, AssignOp.isCompound, AssignOp.primitive?, Action.ofExcept, Bind.bind,
          EStateM.bind]
      | ok target' =>
        simp [require, ofExcept_ok_bind, assigns_iff, AssignOp.isCompound, AssignOp.primitive?]

end Plain

variable {lw lw' : Lowering} {op : AssignOp} {t symbol : Operand} {target : Node}
  {targets : List Operand} {targetNodes value ns : List Node}

/-- What an assignment is lowered to: of any value to one target, or of the results of a call to
several. -/
inductive AssignsTo (lw : Lowering) (op : AssignOp) (targets : List Operand)
    (value ns : List Node) : Prop where
  | one {t : Operand} {target : Node} {lw' : Lowering} (houtputs : target.outputs = [t])
      (htargets : targets = [t]) (h : assignment [target] op value lw = .ok ns lw')
  | many {target : List Node} (htargets : targets? target = some targets)
      (hlast : ∀ last ∈ value.getLast?, last.isStructField = false ∧ last.isArrayElement = false)
      (h : lw.multiAssignment target op value = .ok ns)

/-- A symbol that is declared for a target. -/
structure Declares (t symbol : Operand) : Prop where
  name_eq : symbol.name = t.name
  isPlain : symbol.isPlain = true
  unassigned : symbol.storage = .unassigned

/-- The declaration of a symbol. -/
def declaration (lw : Lowering) (symbol : Operand) : Node := { lw.node with outputs := [symbol] }

theorem require_eq_ok {α : Type} {found : Option α} {reason : String} {a : α} :
    require found reason = .ok a ↔ found = some a := by
  cases found <;> simp [require, invalid]

/-- What a plain assignment writes. -/
def Retarget.written (r : Retarget) (o : Operand) : Operand :=
  { o with
    ty := if o.isPlain && r.ty.isDefined then r.ty else o.ty
    byReference := r.byReference, escapes := r.escapes }

/-- The last node of a plain assignment. -/
def Retarget.assigns (r : Retarget) (o : Operand) (rest : List Operand) : Node :=
  { r.node with outputs := r.written o :: rest }

theorem retarget_eq_ok : lw.retarget targetNodes value = .ok ns ↔
    ∃ copy last r target o rest, lw.primitives.operator "identity" = .ok copy ∧
      value.getLast? = some last ∧ lw.retargetNode copy last = .ok r ∧
      targetNodes.getLast? = some target ∧ target.outputs = o :: rest ∧
      ns = (if o.shortDeclared then retypeDeclaration o r.ty r.escapes targetNodes.dropLast
        else targetNodes.dropLast) ++ value.dropLast ++ [r.assigns o rest] := by
  unfold retarget
  constructor
  · intro h
    obtain ⟨copy, hcopy, h⟩ := bind_eq_ok.mp h
    obtain ⟨last, hlast, h⟩ := bind_eq_ok.mp h
    obtain ⟨r, hr, h⟩ := bind_eq_ok.mp h
    obtain ⟨target, htarget, h⟩ := bind_eq_ok.mp h
    obtain ⟨o, ho, h⟩ := bind_eq_ok.mp h
    obtain ⟨rest, hrest⟩ := List.head?_eq_some_iff.mp (require_eq_ok.mp ho)
    cases h
    refine ⟨copy, last, r, target, o, rest, hcopy, require_eq_ok.mp hlast, hr,
      require_eq_ok.mp htarget, hrest, ?_⟩
    rw [hrest]
    rfl
  · rintro ⟨copy, last, r, target, o, rest, hcopy, hlast, hr, htarget, hrest, rfl⟩
    rw [hcopy, hlast, htarget]
    simp only [require, bind, Except.bind, hr, hrest, List.head?_cons]
    rfl

/-- A declaration that is given the type and escape of the value goes on declaring the target. -/
theorem Declares.retypeDeclaration (h : Declares t symbol) (lw : Lowering) (o : Operand) (ty : Ty)
    (escapes : Bool) : ∃ symbol', Lowering.retypeDeclaration o ty escapes [lw.declaration symbol] =
      [lw.declaration symbol'] ∧ Declares t symbol' := by
  refine ⟨if symbol.name == o.name && symbol.shortDeclared then
    { symbol with ty := if ty.isDefined then ty else symbol.ty, escapes } else symbol, rfl, ?_⟩
  split
  · exact ⟨h.name_eq, h.isPlain, h.unassigned⟩
  · exact h

theorem retarget_declared (hshort : t.shortDeclared = true) (houtputs : target.outputs = [t])
    (hsymbol : Declares t symbol) (h : lw.retarget [lw.declaration symbol, target] value = .ok ns) :
    ∃ symbol' rest, ns = lw.declaration symbol' :: rest ∧ Declares t symbol' ∧
      lw.retarget [target] value = .ok rest := by
  obtain ⟨copy, last, r, target', o, tail, hcopy, hlast, hr, htarget, hrest, rfl⟩ :=
    retarget_eq_ok.mp h
  cases htarget
  cases houtputs.symm.trans hrest
  obtain ⟨symbol', hretyped, hsymbol'⟩ := hsymbol.retypeDeclaration lw t r.ty r.escapes
  refine ⟨symbol', value.dropLast ++ [r.assigns t []], ?_, hsymbol', retarget_eq_ok.mpr
    ⟨copy, last, r, target, t, [], hcopy, hlast, hr, rfl, houtputs, ?_⟩⟩
  · rw [if_pos hshort]
    exact congrArg (· ++ value.dropLast ++ [r.assigns t []]) hretyped
  · rw [if_pos hshort]
    rfl

theorem declareTarget_eq_ok (houtputs : target.outputs = [t])
    (h : lw.declareTarget [target] value = .ok ns) : ∃ symbol, Declares t symbol ∧
      ns = [lw.declaration symbol, target.modifyOutput .marked] := by
  obtain ⟨o, ho, h⟩ := bind_eq_ok.mp h
  obtain ⟨ty, -, h⟩ := bind_eq_ok.mp h
  have hhead : target.outputs.head? = some o := require_eq_ok.mp ho
  rw [houtputs] at hhead
  cases hhead
  cases h
  exact ⟨{ lw.operand t.name ty with shortDeclared := true }, ⟨rfl, rfl, rfl⟩, rfl⟩

/-- The symbols that are declared for the results of a call. -/
def resultSymbols (lw : Lowering) (fallback : Ty) (targets : List Operand) (outputs : List Param) :
    List Operand :=
  List.zipWith (fun o p =>
    { lw.operand o.name (if p.ty.isDefined then p.ty else fallback) with shortDeclared := true })
    targets outputs

theorem declares_resultSymbols {fallback : Ty} {outputs : List Param}
    (h : targets.length = outputs.length) :
    List.Forall₂ Declares targets (lw.resultSymbols fallback targets outputs) := by
  induction targets generalizing outputs with
  | nil => exact .nil
  | cons t targets ih =>
    cases outputs with
    | nil => cases h
    | cons p outputs => exact .cons ⟨rfl, rfl, rfl⟩ (ih (Nat.succ.inj h))

/-- The last node of an assignment of several results. -/
def multiAssigns (last : Node) (targets : List Operand) : Node := { last with outputs := targets }

theorem multiAssignment_assign_eq_ok : lw.multiAssignment targetNodes .assign value = .ok ns ↔
    ∃ targets last signature, targets? targetNodes = some targets ∧ value.getLast? = some last ∧
      last.operator.bind (·.signature?) = some signature ∧
      targets.length = signature.outputs.length ∧
      ns = value.dropLast ++ [multiAssigns last targets] := by
  unfold multiAssignment
  rw [if_neg (by decide)]
  constructor
  · intro h
    obtain ⟨targets, htargets, h⟩ := bind_eq_ok.mp h
    obtain ⟨last, hlast, h⟩ := bind_eq_ok.mp h
    obtain ⟨signature, hsignature, h⟩ := bind_eq_ok.mp h
    by_cases hlength : targets.length = signature.outputs.length
    · rw [if_neg (not_not.mpr hlength), if_neg (by decide)] at h
      cases h
      exact ⟨targets, last, signature, require_eq_ok.mp htargets, require_eq_ok.mp hlast,
        require_eq_ok.mp hsignature, hlength, rfl⟩
    · rw [if_pos hlength] at h
      cases h
  · rintro ⟨targets, last, signature, htargets, hlast, hsignature, hlength, rfl⟩
    rw [htargets, hlast]
    simp only [require, bind, Except.bind, hsignature]
    rw [if_neg (not_not.mpr hlength), if_neg (by decide)]
    rfl

theorem multiAssignment_define (h : lw.multiAssignment targetNodes .define value = .ok ns)
    (htargets : targets? targetNodes = some targets) : ∃ symbols last signature,
      List.Forall₂ Declares targets symbols ∧ value.getLast? = some last ∧
      last.operator.bind (·.signature?) = some signature ∧
      targets.length = signature.outputs.length ∧ ns = symbols.map lw.declaration ++
        (value.dropLast ++ [multiAssigns last (targets.map .marked)]) := by
  unfold multiAssignment at h
  rw [if_neg (by decide)] at h
  obtain ⟨os, hos, h⟩ := bind_eq_ok.mp h
  obtain ⟨last, hlast, h⟩ := bind_eq_ok.mp h
  obtain ⟨signature, hsignature, h⟩ := bind_eq_ok.mp h
  cases htargets.symm.trans (require_eq_ok.mp hos)
  by_cases hlength : targets.length = signature.outputs.length
  swap
  · rw [if_pos hlength] at h
    cases h
  rw [if_neg (not_not.mpr hlength), if_pos rfl] at h
  obtain ⟨fallback, -, h⟩ := bind_eq_ok.mp h
  cases h
  refine ⟨lw.resultSymbols fallback targets signature.outputs, last, signature,
    declares_resultSymbols hlength, require_eq_ok.mp hlast, require_eq_ok.mp hsignature, hlength,
    ?_⟩
  rw [List.append_assoc, resultSymbols, List.map_zipWith]
  rfl

theorem targets?_map_value (os : List Operand) : targets? (os.map .value) = some os := by
  induction os with
  | nil => rfl
  | cons o os ih =>
    unfold targets? at ih ⊢
    rw [List.map_cons, List.mapM_cons, ih]
    rfl

/-- A short declaration declares its targets, and then is the plain assignment of the same value. -/
theorem AssignsTo.declares (h : lw.AssignsTo .define targets value ns) :
    ∃ symbols rest, ns = symbols.map lw.declaration ++ rest ∧
      List.Forall₂ Declares targets symbols ∧
      lw.AssignsTo .assign (targets.map .marked) value rest := by
  cases h with
  | @one t target lw' houtputs htargets h =>
    subst htargets
    have hmarked : (target.modifyOutput .marked).outputs = [t.marked] := by
      rw [Node.modifyOutput, houtputs]
      rfl
    obtain ⟨_, last, hdeclared, hlast, hassigns⟩ := assignment_define_eq_ok.mp h
    obtain ⟨symbol, hsymbol, rfl⟩ := declareTarget_eq_ok houtputs hdeclared
    suffices hrest : ∃ symbol rest, ns = lw.declaration symbol :: rest ∧ Declares t symbol ∧
        Assigns lw lw' [target.modifyOutput .marked] value last rest by
      obtain ⟨symbol, rest, rfl, hsymbol, hrest⟩ := hrest
      have hassigned : assignment [target.modifyOutput .marked] .assign value lw = .ok rest lw' :=
        assignment_assign_eq_ok.mpr ⟨t.marked, last, congrArg List.head? hmarked, hlast, hrest⟩
      exact ⟨[symbol], rest, rfl, .cons hsymbol .nil, .one hmarked rfl hassigned⟩
    cases hassigns with
    | struct hstruct hfields hns =>
      exact ⟨_, _, hns, hsymbol, .struct hstruct hfields rfl⟩
    | array hstruct harray helements hlw hns =>
      exact ⟨_, _, hns, hsymbol, .array hstruct harray helements hlw rfl⟩
    | other hstruct harray hns hlw =>
      obtain ⟨symbol', rest, rfl, hsymbol', hrest⟩ :=
        retarget_declared (t := t.marked) rfl hmarked
          ⟨hsymbol.name_eq, hsymbol.isPlain, hsymbol.unassigned⟩ hns
      exact ⟨symbol', rest, rfl, ⟨hsymbol'.name_eq, hsymbol'.isPlain, hsymbol'.unassigned⟩,
        .other hstruct harray hrest hlw⟩
  | @many target htargets hlast h =>
    obtain ⟨symbols, last, signature, hsymbols, hvalue, hsignature, hlength, rfl⟩ :=
      multiAssignment_define h htargets
    have hnodes := targets?_map_value (targets.map .marked)
    refine ⟨symbols, _, rfl, hsymbols, .many hnodes hlast (multiAssignment_assign_eq_ok.mpr ?_)⟩
    exact ⟨_, last, signature, hnodes, hvalue, hsignature, by rwa [List.length_map], rfl⟩

/-- The node gives the value of `last`: it applies the same operator to the same inputs, or copies
the operand that `last` names. -/
inductive Computes (lw : Lowering) (last n : Node) : Prop where
  | operator {op : Operator} {signature : Signature} (hlast : last.operator = some op)
      (hsignature : op.signature? = some signature) (hop : n.operator = some op)
      (hinputs : n.inputs = last.inputs)
  | operand {e : Operand} {copy : Operator} (hlast : last.operator = none)
      (he : last.outputs.head? = some e) (hcopy : lw.primitives.operator "identity" = .ok copy)
      (hop : n.operator = some copy) (hinputs : n.inputs.head? = some e)

theorem computes_of_retargetNode {copy : Operator} {last : Node} {r : Retarget} {o : Operand}
    {rest : List Operand} (hcopy : lw.primitives.operator "identity" = .ok copy)
    (h : lw.retargetNode copy last = .ok r) : lw.Computes last (r.assigns o rest) := by
  unfold retargetNode at h
  split at h
  · rename_i op hop
    obtain ⟨signature, hsignature, h⟩ := bind_eq_ok.mp h
    by_cases hmany : 1 < signature.outputs.length
    · rw [if_pos hmany] at h
      cases h
    rw [if_neg hmany] at h
    obtain ⟨first, -, h⟩ := bind_eq_ok.mp h
    have hnode : r.node = last := by
      split at h
      · cases h
        rfl
      · obtain ⟨ty, -, h⟩ := bind_eq_ok.mp h
        cases h
        rfl
    have hoperator : r.node.operator = some op := hnode ▸ hop
    have hinputs : r.node.inputs = last.inputs := congrArg Node.inputs hnode
    exact .operator hop (require_eq_ok.mp hsignature) hoperator hinputs
  · rename_i hop
    obtain ⟨e, he, h⟩ := bind_eq_ok.mp h
    obtain ⟨ty, -, h⟩ := bind_eq_ok.mp h
    cases h
    obtain ⟨tail, houtputs⟩ := List.head?_eq_some_iff.mp (require_eq_ok.mp he)
    refine .operand hop (require_eq_ok.mp he) hcopy rfl ?_
    change (if last.isMethodCall then last.outputs ++ last.inputs else last.outputs).head? = some e
    rw [houtputs]
    split <;> rfl

/-- The symbol that an output names is that of the target. -/
structure SameSymbol (t o : Operand) : Prop where
  name_eq : o.name = t.name
  chain_eq : o.chain = t.chain
  storage_eq : o.storage = t.storage

/-- A plain assignment of anything but a literal ends in a node that gives the targets the value. -/
theorem AssignsTo.last {last : Node} (h : lw.AssignsTo .assign targets value ns)
    (hlast : value.getLast? = some last) (hstruct : last.isStructField = false)
    (harray : last.isArrayElement = false) : ∃ n, ns = value.dropLast ++ [n] ∧ lw.Computes last n ∧
      List.Forall₂ SameSymbol targets n.outputs := by
  cases h with
  | @one t target lw' houtputs htargets h =>
    obtain ⟨o, last', -, hlast', hassigns⟩ := assignment_assign_eq_ok.mp h
    cases hlast.symm.trans hlast'
    cases hassigns with
    | struct hnot => cases hstruct.symm.trans hnot
    | array _ hnot => cases harray.symm.trans hnot
    | other _ _ hns =>
      obtain ⟨copy, last', r, target', o, rest, hcopy, hlast', hr, htarget, hrest, rfl⟩ :=
        retarget_eq_ok.mp hns
      cases hlast.symm.trans hlast'
      cases htarget
      cases houtputs.symm.trans hrest
      refine ⟨r.assigns t [], ?_, computes_of_retargetNode hcopy hr,
        htargets ▸ .cons ⟨rfl, rfl, rfl⟩ .nil⟩
      split <;> rfl
  | @many target htargets _ h =>
    obtain ⟨os, last', signature, hos, hlast', hsignature, -, rfl⟩ :=
      multiAssignment_assign_eq_ok.mp h
    cases hlast.symm.trans hlast'
    cases htargets.symm.trans hos
    obtain ⟨op, hop, hsignature⟩ := Option.bind_eq_some_iff.mp hsignature
    exact ⟨multiAssigns last targets, rfl, .operator hop hsignature hop rfl,
      List.forall₂_same.mpr fun t _ => ⟨rfl, rfl, rfl⟩⟩

end Lowering

end FlatMachine
