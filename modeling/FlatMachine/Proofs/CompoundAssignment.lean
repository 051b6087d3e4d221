import FlatMachine.Proofs.Checking
import FlatMachine.Proofs.LoweredDefinition

/-!
# Compound assignments

`t op= v` is short for `t = t <op> v`, and `t op= e` for `tmp := e` followed by `t = t <op> tmp`.
The short forms are lowered on their own and name their operands differently. They are refused
whenever the long forms are, and otherwise run in lockstep with them.
-/

namespace FlatMachine

open FlatMachine.Action

/-- The names of the generic operators belong to them. -/
def PrimitiveTable.HasGenerics (table : PrimitiveTable) : Prop :=
  ∀ (op : BinaryOp) code, table.code op.genericPrimitive.name = .ok code →
    table.get code = .ok op.genericPrimitive

/-- The node applies the operator, and is no part of a literal. -/
structure Node.Applies (n : Node) (op : Operator) : Prop where
  operator_eq : n.operator = some op
  notField : n.isStructField = false
  notElement : n.isArrayElement = false

/-- The function with the lowered nodes between `front` and `back`, laid out. -/
def FunctionDraft.layoutLowered (fd : FunctionDraft) (d : Draft) (front back : List Node)
    (lower : Action Lowering (List Node)) (lw : Lowering) : Except Error Function :=
  match lower lw with
  | .ok ns _ => (fd.enclosing front back ns).layout d
  | .error e _ => .error e

theorem AssignOp.primitive?_eq_some {op : AssignOp} {name : String}
    (h : op.primitive? = some name) : ∃ b : BinaryOp, name = b.genericPrimitive.name ∧
      b.isComparison = false ∧ b.genericPrimitive.name ≠ "identity" := by
  cases op <;> cases h
  · exact ⟨.add, rfl, rfl, by decide⟩
  · exact ⟨.sub, rfl, rfl, by decide⟩
  · exact ⟨.mul, rfl, rfl, by decide⟩
  · exact ⟨.div, rfl, rfl, by decide⟩
  · exact ⟨.mod, rfl, rfl, by decide⟩
  · exact ⟨.shl, rfl, rfl, by decide⟩
  · exact ⟨.shr, rfl, rfl, by decide⟩
  · exact ⟨.and, rfl, rfl, by decide⟩
  · exact ⟨.or, rfl, rfl, by decide⟩
  · exact ⟨.xor, rfl, rfl, by decide⟩

theorem BinaryOp.not_accepts_pointer {b : BinaryOp} (h : b.isComparison = false) (target : Ty) :
    ¬ b.genericParam.accepts (.pointer target) = true := by
  intro haccepts
  have hany : b.genericPrimitive.ComparesAny → (Ty.pointer target).isReadable = true := by
    rintro (hname | hname) <;> cases b <;> first | exact absurd hname (by decide) | cases h
  obtain ⟨-, htyped⟩ := Primitive.genericParam_accepts haccepts hany
  cases b <;> first | cases htyped | cases h

/-- The operator is the generic one that this is the name of. -/
structure Operator.IsGeneric (op : Operator) (table : PrimitiveTable) (b : BinaryOp) : Prop where
  exists_eq : ∃ code, op = .native code b.genericPrimitive.name b.genericPrimitive.signature ∧
    table.get code = .ok b.genericPrimitive
  arithmetic : b.isComparison = false
  notIdentity : op.isIdentity = false

theorem PrimitiveTable.HasGenerics.isGeneric {table : PrimitiveTable} {op : AssignOp}
    {name : String} {operator : Operator} (h : table.HasGenerics)
    (hname : op.primitive? = some name) (hoperator : table.operator name = .ok operator) :
    ∃ b, operator.IsGeneric table b := by
  obtain ⟨b, rfl, harith, hident⟩ := AssignOp.primitive?_eq_some hname
  obtain ⟨code, hcode, hoperator⟩ := bind_eq_ok.mp hoperator
  obtain ⟨p, hp, hoperator⟩ := bind_eq_ok.mp hoperator
  cases hp.symm.trans (h b code hcode)
  cases hoperator
  exact ⟨b, ⟨code, rfl, hp⟩, harith, beq_eq_false_iff_ne.mpr hident⟩

section Types

variable {l : FrameLayout} {lw : Lowering} {ty : Ty} {access access' : Access}
  {chain chain' : List Access} {o o' : Operand}

theorem FrameLayout.step_linkAccess (h : l.linkAccess ty access = .ok access') :
    ty.step l.structs access' = ty.step l.structs access := by
  match access with
  | .pointer =>
    cases h
    rfl
  | .index source =>
    obtain ⟨source', -, h⟩ := bind_eq_ok.mp h
    cases h
    cases ty <;> rfl
  | .field ref =>
    obtain ⟨struct, hstruct, h⟩ := bind_eq_ok.mp h
    obtain ⟨field, -, h⟩ := bind_eq_ok.mp h
    cases h
    rcases structOf_eq_ok hstruct with rfl | rfl <;> rfl

/-- Linking a chain does not change the type it leads to. -/
theorem FrameLayout.chainTy_linkChain (h : l.linkChain ty chain = .ok chain') :
    ∃ ty', Operand.chainTy l.structs ty chain = .ok ty' ∧
      Operand.chainTy l.structs ty chain' = .ok ty' := by
  induction chain generalizing ty chain' with
  | nil =>
    cases h
    exact ⟨ty, rfl, rfl⟩
  | cons access rest ih =>
    obtain ⟨access', haccess, h⟩ := bind_eq_ok.mp h
    obtain ⟨next, hnext, h⟩ := bind_eq_ok.mp h
    obtain ⟨rest', hrest, h⟩ := bind_eq_ok.mp h
    cases h
    obtain ⟨ty', hty, hty'⟩ := ih hrest
    refine ⟨ty', bind_eq_ok.mpr ⟨next, ?_, hty⟩, bind_eq_ok.mpr ⟨next, hnext, hty'⟩⟩
    rw [← step_linkAccess haccess, hnext]

/-- The type of an operand that can be bound is known, as far as that of its symbol is. -/
theorem Lowering.exists_knownTy (hstructs : lw.structs = l.structs) (h : l.bind o = .ok o') :
    ∃ ty, lw.knownTy o = .ok ty ∧ (o.ty.isDefined = true → o'.valueTy l.structs = .ok ty) := by
  unfold knownTy
  by_cases hdefined : o.ty.isDefined = true
  swap
  · rw [if_neg hdefined]
    exact ⟨.undefined, rfl, fun h => absurd h hdefined⟩
  rw [if_pos hdefined, hstructs]
  rw [FrameLayout.bind_eq] at h
  obtain ⟨origin, horigin, h⟩ := bind_eq_ok.mp h
  obtain ⟨chain, hchain, h⟩ := bind_eq_ok.mp h
  cases h
  have hty : origin.2 = o.ty := by
    unfold FrameLayout.origin at horigin
    split at horigin
    · obtain ⟨known, -, horigin⟩ := bind_eq_ok.mp horigin
      split at horigin
      · cases horigin
      · rename_i hsame
        cases horigin
        rw [hdefined, Bool.true_and, bne_iff_ne, not_not] at hsame
        exact hsame.symm
    · cases horigin
      rfl
  rw [hty] at hchain
  obtain ⟨ty, hty', hty''⟩ := FrameLayout.chainTy_linkChain hchain
  exact ⟨ty, hty', fun _ => hty ▸ hty''⟩

end Types

namespace Lowering

variable {lw lw' : Lowering} {op : AssignOp} {operator copy : Operator} {signature : Signature}
  {r : Param} {b : BinaryOp} {table : PrimitiveTable} {t v : Operand} {target n e : Node}
  {earlier ns : List Node} {ty : Ty} {name : String}

theorem declaredTy_applies (hn : n.Applies operator) (earlier : List Node) :
    lw.declaredTy (earlier ++ [n]) = lw.outputTy n := by
  have hbare : ¬ n.isBare = true := by simp [Node.isBare, hn.operator_eq]
  unfold declaredTy
  rw [List.getLast?_concat]
  change (if n.isStructField = true then _ else _) = _
  rw [if_neg (by simp [hn.notField]), if_neg (by simp [hn.notElement]), if_neg hbare]

section Plain

variable (hcopy : lw.primitives.operator "identity" = .ok copy) (hn : n.Applies operator)
  (hsignature : operator.signature? = some signature) (hresult : signature.outputs = [r])

include hn hsignature hresult

theorem retargetNode_applies : lw.retargetNode copy n =
    ((if operator.isIdentity then .ok .undefined else lw.outputTy n) >>= fun ty =>
      .ok ⟨n, ty, r.byReference, r.escapes⟩ : Except Error Retarget) := by
  obtain ⟨inputs, outputs⟩ := signature
  cases hresult
  unfold retargetNode
  rw [hn.operator_eq]
  simp only [hsignature, require]
  change (if operator.isIdentity = true then _ else _ : Except Error Retarget) = _
  by_cases hidentity : operator.isIdentity = true
  · rw [if_pos hidentity, if_pos hidentity]
    rfl
  · rw [if_neg hidentity, if_neg hidentity]
    rfl

include hcopy

/-- The plain assignment of what an operator gives. -/
theorem assignment_applies_eq_ok (ht : target.outputs = [t]) (earlier : List Node) :
    assignment [target] .assign (earlier ++ [n]) lw = .ok ns lw' ↔
      ∃ ty, (if operator.isIdentity then .ok .undefined else lw.outputTy n) = Except.ok ty ∧
        ns = earlier ++ [(⟨n, ty, r.byReference, r.escapes⟩ : Retarget).assigns t []] ∧
          lw' = lw := by
  rw [assignment_assign_eq_ok]
  constructor
  · rintro ⟨o, last, -, hlast, hassigns⟩
    rw [List.getLast?_concat] at hlast
    cases hlast
    cases hassigns with
    | struct hnot => cases hn.notField.symm.trans hnot
    | array _ hnot => cases hn.notElement.symm.trans hnot
    | other _ _ hns hlw =>
      obtain ⟨_, last, found, node, o, rest, _, hlast, hfound, hnode, ho, rfl⟩ :=
        retarget_eq_ok.mp hns
      rw [List.getLast?_concat] at hlast
      cases hlast
      cases hnode
      cases ht.symm.trans ho
      rw [retargetNode_applies hn hsignature hresult] at hfound
      obtain ⟨ty, hty, hfound⟩ := bind_eq_ok.mp hfound
      cases hfound
      refine ⟨ty, hty, ?_, hlw⟩
      split <;> simp [retypeDeclaration]
  · rintro ⟨ty, hty, rfl, rfl⟩
    have hfound : lw'.retargetNode copy n = .ok ⟨n, ty, r.byReference, r.escapes⟩ := by
      rw [retargetNode_applies hn hsignature hresult, hty]
      rfl
    refine ⟨t, n, congrArg List.head? ht, List.getLast?_concat,
      .other hn.notField hn.notElement ?_ rfl⟩
    refine retarget_eq_ok.mpr
      ⟨copy, n, _, target, t, [], hcopy, List.getLast?_concat, hfound, rfl, ht, ?_⟩
    split <;> simp [retypeDeclaration]

/-- The short declaration of what an operator gives, if its type is known. -/
theorem assignment_define_applies (hty : lw.outputTy n = .ok ty) (ht : target.outputs = [t])
    (hname : t.Names name ty) (earlier : List Node) :
    ∃ symbol written, symbol.ty = ty ∧ symbol.Names name ty ∧ written.Names name ty ∧
      assignment [target] .define (earlier ++ [n]) lw =
        .ok (lw.declaration symbol :: (earlier ++ [{ n with outputs := [written] }])) lw := by
  have hdeclared := (declaredTy_applies hn earlier).trans hty
  -- the copy says nothing about the type it copies
  obtain ⟨found, hfound, hknown⟩ : ∃ found, lw.retargetNode copy n = .ok
      ⟨n, found, r.byReference, r.escapes⟩ ∧ (found.isDefined = true → found = ty) := by
    rw [retargetNode_applies hn hsignature hresult]
    by_cases hidentity : operator.isIdentity = true
    · exact ⟨.undefined, by rw [if_pos hidentity]; rfl, nofun⟩
    · exact ⟨ty, by rw [if_neg hidentity, hty]; rfl, fun _ => rfl⟩
  exact assignment_define_retarget hcopy hn.notField hn.notElement ht hname hdeclared hfound hknown

end Plain

theorem outputTy_eq {params : List Param} (hn : n.operator = some operator)
    (hsignature : operator.signature? = some signature)
    (hresults : signature.outputs = r :: params) :
    lw.outputTy n = if r.ty.isDefined then .ok r.ty else lw.firstInputTy n := by
  obtain ⟨inputs, outputs⟩ := signature
  cases hresults
  unfold outputTy
  rw [hn]
  change (require operator.signature? _ >>= _) = _
  rw [hsignature]
  rfl

theorem outputTy_generic (lw : Lowering) {rest : List Operand}
    (hoperator : operator.IsGeneric table b) (hn : n.operator = some operator)
    (hinputs : n.inputs = t :: rest) : lw.outputTy n = lw.knownTy t := by
  obtain ⟨⟨code, rfl, -⟩, harithmetic, -⟩ := hoperator
  have hresults : b.genericPrimitive.signature.outputs = [.any] := by
    simp [BinaryOp.genericPrimitive, harithmetic]
  rw [outputTy_eq hn rfl hresults]
  change lw.firstInputTy n = _
  rw [firstInputTy, hinputs]

section Application

variable (hcopy : lw.primitives.operator "identity" = .ok copy)
  (hoperator : operator.IsGeneric table b) (hn : n.Applies operator)

include hcopy hoperator hn

/-- What `t = t <op> v` is lowered to, if the type of the target is known. -/
theorem assignment_generic_eq_ok (ht : target.outputs = [t]) (earlier : List Node) :
    assignment [target] .assign (earlier ++ [{ n with inputs := [t, v] }]) lw = .ok ns lw' ↔
      (∃ ty, lw.knownTy t = .ok ty) ∧ ns = earlier ++ [{ n with
        inputs := [t, v], outputs := [{ t with byReference := false, escapes := false }] }] ∧
        lw' = lw := by
  have hidentity := hoperator.notIdentity
  have harithmetic := hoperator.arithmetic
  have happlies : Node.Applies { n with inputs := [t, v] } operator :=
    ⟨hn.operator_eq, hn.notField, hn.notElement⟩
  have hty := outputTy_generic lw hoperator happlies.operator_eq rfl
  obtain ⟨code, rfl, -⟩ := hoperator.exists_eq
  have hresult : b.genericPrimitive.signature.outputs = [.any] := by
    simp [BinaryOp.genericPrimitive, harithmetic]
  rw [assignment_applies_eq_ok hcopy happlies rfl hresult ht earlier,
    if_neg (by simp [hidentity]), hty]
  -- a plain target is given the type that it has
  have hkept : ∀ ty, lw.knownTy t = .ok ty →
      (if t.isPlain && ty.isDefined then ty else t.ty) = t.ty := by
    intro ty hknown
    split
    · rename_i hplain
      obtain ⟨hchain, hdefined⟩ := Bool.and_eq_true_iff.mp hplain
      unfold knownTy at hknown
      split at hknown
      · rw [Operand.valueTy, List.isEmpty_iff.mp hchain] at hknown
        cases hknown
        rfl
      · cases hknown
        cases hdefined
    · rfl
  have hassigns : ∀ ty, lw.knownTy t = .ok ty →
      (⟨{ n with inputs := [t, v] }, ty, Param.any.byReference, Param.any.escapes⟩ :
        Retarget).assigns t [] = { n with
          inputs := [t, v], outputs := [{ t with byReference := false, escapes := false }] } := by
    intro ty hknown
    unfold Retarget.assigns Retarget.written
    rw [hkept ty hknown]
    rfl
  constructor
  · rintro ⟨ty, hknown, rfl, rfl⟩
    exact ⟨⟨ty, hknown⟩, by rw [hassigns ty hknown], rfl⟩
  · rintro ⟨⟨ty, hknown⟩, rfl, rfl⟩
    exact ⟨ty, hknown, by rw [hassigns ty hknown], rfl⟩

end Application

/-- A compound assignment of an operand. -/
theorem assignment_bare {last : Node} (hname : op.primitive? = some name)
    (hoperator : lw.primitives.operator name = .ok operator) (ht : target.outputs = [t])
    (hbare : last.isBare = true) (hv : last.outputs.head? = some v) (earlier : List Node) :
    assignment [target] op (earlier ++ [last]) lw =
      .ok (earlier ++ [lw.application operator t v]) lw := by
  have hop : op.isCompound = true := by rw [AssignOp.isCompound, hname]; rfl
  refine (assignment_compound_eq_ok hop).mpr ⟨t, last, name, operator, congrArg List.head? ht,
    List.getLast?_concat, hname, hoperator, .bare hbare hv rfl ?_⟩
  rw [List.dropLast_concat]
  rfl

/-- A compound assignment of what an operator gives, if its type is known. -/
theorem assignment_computed {computes : Operator} (hname : op.primitive? = some name)
    (hoperator : lw.primitives.operator name = .ok operator) (ht : target.outputs = [t])
    (he : e.Applies computes) (hty : lw.outputTy e = .ok ty) (hdefined : ty.isDefined = true)
    (earlier : List Node) : assignment [target] op (earlier ++ [e]) lw =
      .ok (lw.declaration (lw.temporary ty) :: (earlier ++ [{ e with outputs := [lw.temporary ty] },
        lw.application operator t (lw.temporary ty)]))
        { lw with freshNames := lw.freshNames + 1 } := by
  have hop : op.isCompound = true := by rw [AssignOp.isCompound, hname]; rfl
  have hbare : e.isBare = false := by rw [Node.isBare, he.operator_eq]; rfl
  refine (assignment_compound_eq_ok hop).mpr ⟨t, e, name, operator, congrArg List.head? ht,
    List.getLast?_concat, hname, hoperator, .computed hbare hty (if_pos hdefined) rfl ?_⟩
  rw [List.dropLast_concat]
  rfl

/-- The short declaration of a fresh name for the value, and then the plain assignment of the
operation on the target and this name. -/
def computeThenApply (target operation : Node) (t : Operand) (value : List Node) :
    Action Lowering (List Node) := do
  let tmp : Operand := { name := ← fresh }
  let computed ← assignment [.value tmp] .define value
  let applied ← assignment [target] .assign [{ operation with inputs := [t, tmp] }]
  return computed ++ applied

theorem computeThenApply_eq_ok {computes : Operator}
    (hcopy : lw.primitives.operator "identity" = .ok copy) (hoperator : operator.IsGeneric table b)
    (hn : n.Applies operator) (ht : target.outputs = [t]) (he : e.Applies computes)
    (hsignature : computes.signature? = some signature) (hresult : signature.outputs = [r])
    (hty : lw.outputTy e = .ok ty) (earlier : List Node) :
    ∃ symbol written, symbol.ty = ty ∧ symbol.Names (lw.temporary ty).name ty ∧
      written.Names (lw.temporary ty).name ty ∧
      ∀ ns lw', computeThenApply target n t (earlier ++ [e]) lw = .ok ns lw' ↔
        (∃ ty, lw.knownTy t = .ok ty) ∧
          ns = lw.declaration symbol :: (earlier ++ [{ e with outputs := [written] }, { n with
            inputs := [t, { name := (lw.temporary ty).name }]
            outputs := [{ t with byReference := false, escapes := false }] }]) ∧
          lw' = { lw with freshNames := lw.freshNames + 1 } := by
  let lw₁ : Lowering := { lw with freshNames := lw.freshNames + 1 }
  have hcopy₁ : lw₁.primitives.operator "identity" = .ok copy := hcopy
  obtain ⟨symbol, written, hsymbolTy, hsymbol, hwritten, hcomputed⟩ :=
    assignment_define_applies hcopy₁ he hsignature hresult hty
      (rfl : (Node.value { name := (lw.temporary ty).name }).outputs = _) ⟨rfl, rfl, rfl, nofun⟩
      earlier
  refine ⟨symbol, written, hsymbolTy, hsymbol, hwritten, fun ns lw' => ?_⟩
  constructor
  · intro h
    obtain ⟨_, _, hfresh, h⟩ := seq_eq_ok.mp h
    cases hfresh
    obtain ⟨_, _, hfirst, h⟩ := seq_eq_ok.mp h
    cases hcomputed.symm.trans hfirst
    obtain ⟨applied, _, hsecond, h⟩ := seq_eq_ok.mp h
    obtain ⟨hknown, rfl, rfl⟩ :=
      (assignment_generic_eq_ok hcopy₁ hoperator hn ht []).mp hsecond
    cases h
    refine ⟨hknown, ?_, rfl⟩
    rw [List.nil_append, List.cons_append, List.append_assoc]
    rfl
  · rintro ⟨hknown, rfl, rfl⟩
    have hsecond := (assignment_generic_eq_ok (v := { name := (lw.temporary ty).name }) hcopy₁
      hoperator hn ht []).mpr ⟨hknown, rfl, rfl⟩
    refine seq_eq_ok.mpr ⟨(lw.temporary ty).name, lw₁, rfl, ?_⟩
    refine seq_eq_ok.mpr ⟨_, _, hcomputed, seq_eq_ok.mpr ⟨_, _, hsecond, ?_⟩⟩
    rw [List.nil_append, List.cons_append, List.append_assoc]
    rfl

end Lowering

namespace FunctionDraft

variable {fd : FunctionDraft} {d : Draft} {l : FrameLayout} {lw : Lowering}
  {front back ns : List Node} {lower : Action Lowering (List Node)} {f : Function} {n : Node}
  {o t v : Operand} {operator : Operator} {table : PrimitiveTable} {b : BinaryOp} {ty : Ty}
  {name : String}

theorem layoutLowered_eq_ok : fd.layoutLowered d front back lower lw = .ok f ↔
    ∃ ns lw', lower lw = .ok ns lw' ∧ (fd.enclosing front back ns).layout d = .ok f := by
  unfold layoutLowered
  cases h : lower lw with
  | ok ns lw' =>
    constructor
    · exact fun h => ⟨ns, lw', rfl, h⟩
    · rintro ⟨_, _, ⟨⟩, h⟩
      exact h
  | error e lw' =>
    constructor
    · exact fun h => nomatch h
    · rintro ⟨_, _, h, -⟩
      cases h

/-- A node of the body has been bound and checked. -/
theorem exists_finishNode (h : fd.layout d = .ok f) (hn : n ∈ fd.body) :
    ∃ (l : FrameLayout) (pc : Nat) (n' : Node), l.draft = d ∧ l.LaidOut fd.declared ∧
      l.finishNode pc fd.body.length n = .ok n' := by
  obtain ⟨l, -, hdraft, hlaid, hbody⟩ := frame_of_layout h
  have hfinish : ∀ {length pc : Nat} {ns ns' : List Node}, l.finishBody length pc ns = .ok ns' →
      n ∈ ns → ∃ pc n', l.finishNode pc length n = .ok n' := by
    intro length pc ns ns' hns hmem
    induction ns generalizing pc ns' with
    | nil => cases hmem
    | cons m ms ih =>
      obtain ⟨m', hm, hns⟩ := bind_eq_ok.mp hns
      obtain ⟨ms', hms, -⟩ := bind_eq_ok.mp hns
      rcases List.mem_cons.mp hmem with rfl | hmem
      · exact ⟨pc, m', hm⟩
      · exact ih hms hmem
  obtain ⟨pc, n', hn'⟩ := hfinish hbody hn
  exact ⟨l, pc, n', hdraft, hlaid, hn'⟩

/-- The type of an input in a function that has been laid out is known to lowering. -/
theorem exists_knownTy (hstructs : lw.structs = d.structs) (h : fd.layout d = .ok f)
    (hn : n ∈ fd.body) (ho : o ∈ n.inputs) : ∃ ty, lw.knownTy o = .ok ty := by
  obtain ⟨l, pc, n', rfl, -, hn'⟩ := exists_finishNode h hn
  have hinputs := (FrameLayout.bindsNode_of_finishNode hn').inputs
  obtain ⟨o', -, hbind⟩ := exists_of_forall₂_right hinputs.flip ho
  obtain ⟨ty, hty, -⟩ := Lowering.exists_knownTy hstructs hbind
  exact ⟨ty, hty⟩

/-- A generic operator is not applied to pointers. -/
theorem not_pointer_of_generic (hoperator : operator.IsGeneric table b)
    (h : fd.layout d = .ok f) (hn : n ∈ fd.body) (hop : n.operator = some operator)
    (hinputs : n.inputs = [t, v]) (hv : v.Names name ty) (hmode : v.byReference = false)
    (hdeclared : (name, ty) ∈ fd.declared) (target : Ty) : ty ≠ .pointer target := by
  obtain ⟨l, pc, n', -, hlaid, hn'⟩ := exists_finishNode h hn
  obtain ⟨hbindsOp, hbinds, hbindsOut⟩ := FrameLayout.bindsNode_of_finishNode hn'
  have hchecked := (FrameLayout.finishNode_eq_ok hn').checked
  rw [hinputs] at hbinds
  obtain ⟨t', rest, ht, hrest, hinputs'⟩ := List.forall₂_cons_left_iff.mp hbinds
  obtain ⟨v', rfl, hbind⟩ := exists_of_forall₂_singleton hrest
  obtain ⟨slot, -, -, -, hslot⟩ := hlaid.bind_names hdeclared hv
  cases hslot.symm.trans hbind
  obtain ⟨first, hfirst⟩ := (FrameLayout.binds_of_bind ht).linked.chainTy
  have hins : List.Forall₂ (fun o ty => o.inputTy l.structs = .ok ty) n'.inputs
      [if t'.byReference then .pointer first else first, ty] := by
    rw [hinputs']
    refine .cons (bind_eq_ok.mpr ⟨first, hfirst, rfl⟩) (.cons ?_ .nil)
    rw [Operand.inputTy, hmode]
    rfl
  obtain ⟨outs, houts⟩ : ∃ outs,
      List.Forall₂ (fun o ty => o.valueTy l.structs = .ok ty) n'.outputs outs := by
    apply exists_forall₂
    intro o ho
    obtain ⟨written, -, hwritten⟩ := exists_of_forall₂_right hbindsOut ho
    exact (FrameLayout.binds_of_bind hwritten).linked.chainTy
  obtain ⟨⟨code, rfl, -⟩, harithmetic, -⟩ := hoperator
  have hnode := FrameLayout.checkNode_eq_ok hins houts hchecked
  rw [Node.Checked, hbindsOp, hop] at hnode
  obtain ⟨hadmits, hlen⟩ := hnode
  obtain ⟨operand, heq, -, haccepts⟩ := hadmits.generic hlen
  obtain rfl : ty = operand := (List.cons.inj (List.cons.inj heq).2).1
  rintro rfl
  exact absurd haccepts (BinaryOp.not_accepts_pointer harithmetic target)

/-- Both forms of an assignment are refused if lowering does not know the type of the target: the
long form is not lowered, and the layout refuses the nodes of the short one. -/
theorem agree_of_unknown {R : Function → Function → Prop} {e : Error} {lw₁ : Lowering}
    {short long : Action Lowering (List Node)} (hstructs : lw.structs = d.structs)
    (hknown : lw.knownTy t = .error e) (hshort : short lw = .ok ns lw₁) (hn : n ∈ ns)
    (hinput : t ∈ n.inputs)
    (hlong : ∀ ns lw', long lw = .ok ns lw' → ∃ ty, lw.knownTy t = .ok ty) :
    Agree R (fd.layoutLowered d front back short lw) (fd.layoutLowered d front back long lw) := by
  apply Agree.of_refused
  · intro f hf
    obtain ⟨ns, lw', hns, hf⟩ := layoutLowered_eq_ok.mp hf
    cases hshort.symm.trans hns
    have hmem : n ∈ (fd.enclosing front back ns).body := by simp [enclosing, hn]
    obtain ⟨ty, hty⟩ := exists_knownTy hstructs hf hmem hinput
    cases hknown.symm.trans hty
  · intro f hf
    obtain ⟨ns, lw', hns, -⟩ := layoutLowered_eq_ok.mp hf
    obtain ⟨ty, hty⟩ := hlong ns lw' hns
    cases hknown.symm.trans hty

end FunctionDraft

section Statement

variable {l : FrameLayout} {lw : Lowering} {operator : Operator} {table : PrimitiveTable}
  {b : BinaryOp} {n : Node} {t v v' : Operand}

/-- The applications in the two forms of an assignment. -/
theorem FrameLayout.matches_generic (lw : Lowering) (hoperator : operator.IsGeneric table b)
    (hn : n.operator = some operator) (hv : Agree Operand.TwinInput (l.bind v) (l.bind v')) :
    l.Matches table (lw.application operator t v) { n with
      inputs := [t, v'], outputs := [{ t with byReference := false, escapes := false }] } := by
  have htarget : t.SameSource { t with byReference := false, escapes := false } :=
    ⟨rfl, rfl, rfl, rfl, rfl⟩
  refine matches_application rfl hn ?_ ?_ ?_
  · exact .cons (.refl fun o => .refl o) (.cons hv .nil)
  · exact .cons ((agree_bind htarget).imp fun _ _ h => h.twin rfl) .nil
  · rintro code name signature p rfl hp
    obtain ⟨⟨_, heq, hget⟩, -⟩ := hoperator
    cases heq
    cases hget.symm.trans hp
    exact .inl (Body.blind_generic b)

section Names

variable {declared : List (String × Ty)} {name : String} {ty : Ty} {o o' : Operand}
  (hlaid : l.LaidOut declared) (hmem : (name, ty) ∈ declared) (ho : o.Names name ty)
  (ho' : o'.Names name ty)

include hlaid hmem ho ho'

theorem FrameLayout.LaidOut.matches_declaration (hpointer : ∀ target, ty ≠ .pointer target)
    (lw : Lowering) : l.Matches table (lw.declaration o) (lw.declaration o') := by
  refine FrameLayout.matches_declaration rfl rfl rfl rfl rfl rfl
    ((hlaid.agree_names hmem ho ho').imp ?_)
  rintro b b' ⟨hbound, hty, hchain⟩
  exact ⟨hbound.twin (ho'.name_eq.trans ho.name_eq.symm), .inr ⟨hchain, hty ▸ hpointer⟩⟩

theorem FrameLayout.LaidOut.matches_retargeted (hn : n.operator = some operator)
    (hops : ∀ p ∈ table.entries, p.Shipped ∨ p.body.Blind) :
    l.Matches table { n with outputs := [o] } { n with outputs := [o'] } := by
  refine matches_application hn hn ?_ ?_ fun code name signature p _ hp => ?_
  · exact List.forall₂_same.mpr fun o _ => .refl fun o => .refl o
  · refine .cons ((hlaid.agree_names hmem ho ho').imp ?_) .nil
    exact fun b b' h => h.1.twin (ho'.name_eq.trans ho.name_eq.symm)
  · exact (hops p (PrimitiveTable.mem_of_get hp)).elim (fun h => .inr ⟨h, rfl⟩) .inl

theorem FrameLayout.LaidOut.agree_inputs (hmode : o'.byReference = o.byReference) :
    Agree Operand.TwinInput (l.bind o) (l.bind o') :=
  (hlaid.agree_names hmem ho ho').imp fun _ _ h =>
    h.1.twinInput (ho'.name_eq.trans ho.name_eq.symm) hmode

end Names

theorem FrameLayout.DeclareSame.of_operators {n' : Node} {operator' : Operator}
    (hn : n.operator = some operator) (hn' : n'.operator = some operator') :
    FrameLayout.DeclareSame n n' := by
  simp [DeclareSame, declarations, Node.isDeclaration, Node.isBare, hn, hn']

theorem Operand.Names.declarations {symbol : Operand} {name : String} {ty : Ty}
    (h : symbol.Names name ty) (hty : symbol.ty = ty) (lw : Lowering) :
    FrameLayout.declarations (lw.declaration symbol) = [(name, ty)] := by
  have hplain : (symbol.isPlain && symbol.storage == .unassigned) = true := by
    simp [Operand.isPlain, h.chain_eq, h.unassigned]
  have hdeclaration : (lw.declaration symbol).isDeclaration = true := rfl
  rw [FrameLayout.declarations, if_pos hdeclaration]
  simp only [Lowering.declaration, List.filter_cons, hplain, if_true, List.filter_nil,
    List.map_cons, List.map_nil, h.name_eq, hty]

/-- What is declared ahead of the nodes is declared in the function around them. -/
theorem Operand.Names.mem_declared {symbol : Operand} {name : String} {ty : Ty}
    (h : symbol.Names name ty) (hty : symbol.ty = ty) (fd : FunctionDraft)
    (front back ns : List Node) (lw : Lowering) :
    (name, ty) ∈ (fd.enclosing front back (lw.declaration symbol :: ns)).declared := by
  have hdeclares : (name, ty) ∈ FrameLayout.declarations (lw.declaration symbol) := by
    rw [h.declarations hty]
    exact List.mem_singleton.mpr rfl
  have hmem : lw.declaration symbol ∈
      (fd.enclosing front back (lw.declaration symbol :: ns)).body := by
    simp [FunctionDraft.enclosing]
  exact List.mem_append_right _ (List.mem_append_right _ (List.mem_flatMap.mpr
    ⟨lw.declaration symbol, hmem, hdeclares⟩))

end Statement

section Forms

variable {fd : FunctionDraft} {d : Draft} {front back : List Node} {lw : Lowering}
  {op : AssignOp} {name : String} {operator copy computes : Operator} {b : BinaryOp}
  {signature : Signature} {r : Param} {target n e last : Node} {t v : Operand} {ty : Ty}
  {earlier : List Node}

namespace Lowering

variable (hname : op.primitive? = some name)
  (hoperator : lw.primitives.operator name = .ok operator)
  (hcopy : lw.primitives.operator "identity" = .ok copy)
  (hgeneric : operator.IsGeneric lw.primitives b)
  (hstructs : lw.structs = d.structs) (ht : target.outputs = [t]) (hn : n.Applies operator)

include hname hoperator hcopy hgeneric hstructs ht hn

theorem agree_bare (hbare : last.isBare = true) (hv : last.outputs.head? = some v) :
    Agree (Function.Interchangeable lw.primitives)
      (fd.layoutLowered d front back (assignment [target] op (earlier ++ [last])) lw)
      (fd.layoutLowered d front back
        (assignment [target] .assign (earlier ++ [{ n with inputs := [t, v] }])) lw) := by
  have hshort := assignment_bare hname hoperator ht hbare hv earlier
  have hlong := fun ns lw' =>
    @assignment_generic_eq_ok lw lw' operator copy b _ t v target n ns hcopy hgeneric hn ht earlier
  cases hknown : lw.knownTy t with
  | error e =>
    exact FunctionDraft.agree_of_unknown hstructs hknown hshort
      (List.mem_append_right _ (List.mem_singleton.mpr rfl)) List.mem_cons_self
      fun ns lw' hns => ((hlong ns lw').mp hns).1
  | ok ty =>
    unfold FunctionDraft.layoutLowered
    rw [hshort, (hlong _ _).mpr ⟨⟨ty, hknown⟩, rfl, rfl⟩]
    apply FunctionDraft.agree_layout
    · have hearlier : List.Forall₂ FrameLayout.DeclareSame earlier earlier :=
        List.forall₂_same.mpr fun _ _ => rfl
      exact List.rel_append hearlier (.cons (.of_operators rfl hn.operator_eq) .nil)
    · intro l _ _
      have hsame : List.Forall₂ (l.Matches lw.primitives) earlier earlier :=
        List.forall₂_same.mpr fun m _ => .refl l _ m
      have happlied := FrameLayout.matches_generic (l := l) (t := t) lw hgeneric
        hn.operator_eq (Agree.refl (r := l.bind v) .refl)
      exact List.rel_append hsame (.cons happlied .nil)

/-- A node that writes the temporary, in the two forms of an assignment. -/
theorem agree_computed
    (hops : ∀ p ∈ lw.primitives.entries, p.Shipped ∨ p.body.Blind) (he : e.Applies computes)
    (hsignature : computes.signature? = some signature) (hresult : signature.outputs = [r])
    (hty : lw.outputTy e = .ok ty) (hdefined : ty.isDefined = true) :
    Agree (Function.Interchangeable lw.primitives)
      (fd.layoutLowered d front back (assignment [target] op (earlier ++ [e])) lw)
      (fd.layoutLowered d front back (computeThenApply target n t (earlier ++ [e])) lw) := by
  have hshort := assignment_computed hname hoperator ht he hty hdefined earlier
  obtain ⟨symbol, written, hsymbolTy, hsymbol, hwritten, hlong⟩ := computeThenApply_eq_ok
    hcopy hgeneric hn ht he hsignature hresult hty earlier
  let tmp := lw.temporary ty
  let short := lw.application operator t tmp
  let long : Node := { n with
    inputs := [t, { name := tmp.name }]
    outputs := [{ t with byReference := false, escapes := false }] }
  have htmp : tmp.Names tmp.name ty := ⟨rfl, rfl, rfl, fun _ => rfl⟩
  have hplain : Operand.Names { name := tmp.name } tmp.name ty := ⟨rfl, rfl, rfl, nofun⟩
  cases hknown : lw.knownTy t with
  | error e =>
    exact FunctionDraft.agree_of_unknown (n := short) hstructs hknown hshort
      (by simp [short, tmp]) List.mem_cons_self fun ns lw' hns => ((hlong ns lw').mp hns).1
  | ok known =>
    unfold FunctionDraft.layoutLowered
    rw [hshort, (hlong _ _).mpr ⟨⟨known, hknown⟩, rfl, rfl⟩]
    by_cases hpointer : ∃ pointed, ty = .pointer pointed
    · -- an escaping temporary is no operand of the operator
      obtain ⟨pointed, hpointer⟩ := hpointer
      apply Agree.of_refused
      · intro f hf
        exact FunctionDraft.not_pointer_of_generic (n := short) hgeneric hf
          (by simp [FunctionDraft.enclosing, short, tmp]) rfl rfl htmp rfl
          (htmp.mem_declared rfl _ _ _ _ lw) pointed hpointer
      · intro f hf
        exact FunctionDraft.not_pointer_of_generic (n := long) hgeneric hf
          (by simp [FunctionDraft.enclosing, long, tmp]) hn.operator_eq rfl hplain rfl
          (hsymbol.mem_declared hsymbolTy _ _ _ _ lw) pointed hpointer
    · apply FunctionDraft.agree_layout
      · have hearlier : List.Forall₂ FrameLayout.DeclareSame earlier earlier :=
          List.forall₂_same.mpr fun _ _ => rfl
        have hfirst : FrameLayout.DeclareSame (lw.declaration tmp) (lw.declaration symbol) :=
          (htmp.declarations rfl lw).trans (hsymbol.declarations hsymbolTy lw).symm
        exact .cons hfirst (List.rel_append hearlier (.cons
          (.of_operators he.operator_eq he.operator_eq)
          (.cons (.of_operators rfl hn.operator_eq) .nil)))
      · intro l _ hlaid
        have hmem := htmp.mem_declared rfl fd front back
          (earlier ++ [{ e with outputs := [tmp] }, short]) lw
        have hsame : List.Forall₂ (l.Matches lw.primitives) earlier earlier :=
          List.forall₂_same.mpr fun m _ => .refl l _ m
        have hfirst : l.Matches lw.primitives (lw.declaration tmp) (lw.declaration symbol) :=
          hlaid.matches_declaration hmem htmp hsymbol (fun pointed h => hpointer ⟨pointed, h⟩) lw
        have hcomputed := hlaid.matches_retargeted hmem htmp hwritten he.operator_eq hops
        have happlied := FrameLayout.matches_generic (t := t) lw hgeneric hn.operator_eq
          (hlaid.agree_inputs hmem htmp hplain rfl)
        exact .cons hfirst (List.rel_append hsame (.cons hcomputed (.cons happlied .nil)))

end Lowering

/-- In any function, in place of `t op= v` there could stand `t = t <op> v` for an operand `v`, and
in place of `t op= e` the computation of `e` into a fresh local and `t = t <op> tmp`: both forms are
refused, or both are laid out, and then either function can stand in for the other. A host's own
operators must not look at how their operands were declared. -/
theorem compound_assignment_expands (hname : op.primitive? = some name)
    (hoperator : lw.primitives.operator name = .ok operator)
    (hcopy : lw.primitives.operator "identity" = .ok copy) (hgenerics : lw.primitives.HasGenerics)
    (hops : ∀ p ∈ lw.primitives.entries, p.Shipped ∨ p.body.Blind)
    (hstructs : lw.structs = d.structs) (ht : target.outputs = [t]) (hn : n.Applies operator) :
    (∀ earlier last v, last.isBare = true → last.outputs.head? = some v →
      Agree (Function.StandsIn lw.primitives)
        (fd.layoutLowered d front back (Lowering.assignment [target] op (earlier ++ [last])) lw)
        (fd.layoutLowered d front back
          (Lowering.assignment [target] .assign (earlier ++ [{ n with inputs := [t, v] }])) lw)) ∧
    ∀ earlier e computes signature r ty, e.Applies computes →
      computes.signature? = some signature → signature.outputs = [r] → lw.outputTy e = .ok ty →
      ty.isDefined = true → Agree (Function.StandsIn lw.primitives)
        (fd.layoutLowered d front back (Lowering.assignment [target] op (earlier ++ [e])) lw)
        (fd.layoutLowered d front back
          (Lowering.computeThenApply target n t (earlier ++ [e])) lw) := by
  obtain ⟨b, hgeneric⟩ := hgenerics.isGeneric hname hoperator
  constructor
  · intro earlier last v hbare hv
    exact (Lowering.agree_bare hname hoperator hcopy hgeneric hstructs ht hn hbare hv).imp
      fun _ _ h => h.standsIn
  · intro earlier e computes signature r ty he hsignature hresult hty hdefined
    exact (Lowering.agree_computed hname hoperator hcopy hgeneric hstructs ht hn hops he hsignature
      hresult hty hdefined).imp fun _ _ h => h.standsIn

end Forms

/-- The copy and the generic addition. -/
def sumTable : PrimitiveTable where
  entries := [identity, BinaryOp.add.genericPrimitive]

def sumOperator : Operator :=
  .native 1 BinaryOp.add.genericPrimitive.name BinaryOp.add.genericPrimitive.signature

def sumLowering : Lowering where
  structs := {}
  primitives := sumTable
  package := "main"

/-- A function that raises what `p` points to. -/
def raiseDraft : FunctionDraft where
  package := "main"
  name := "raise"
  params := [("p", .pointer .i32), ("x", .i32)]

def raiseTarget : Operand := { name := "p", ty := .pointer .i32, chain := [.pointer] }

/-- Twice the value of `x`. -/
def doubled : Node :=
  { operator := some sumOperator, inputs := [{ name := "x", ty := .i32 }, { name := "x" }] }

/-- A parameter of the laid-out function. -/
def raiseOperand (name : String) (offset : Nat) (ty : Ty) : Operand :=
  { name, ty, storage := .frame offset, package := "main" }

/-- The local that holds the value. -/
def raiseTemporary : Operand :=
  { name := "$lcl0", ty := .i32, storage := .frame 8, declared := true, package := "main" }

def raisePointee : Operand := { raiseOperand "p" 0 (.pointer .i32) with chain := [.pointer] }

/-- What `*p += x + x` is lowered to. -/
def raiseBody : List Node := [
  sumLowering.declaration (sumLowering.temporary .i32),
  { doubled with outputs := [sumLowering.temporary .i32] },
  sumLowering.application sumOperator raiseTarget (sumLowering.temporary .i32)]

/-- The function that adds twice the value of `x`, laid out. -/
def raiseFunction : Function where
  package := "main"
  name := "raise"
  params := [{ raiseOperand "p" 0 (.pointer .i32) with declared := true },
    { raiseOperand "x" 4 .i32 with declared := true }]
  body := [
    { outputs := [raiseTemporary], package := "main" },
    { operator := some sumOperator
      inputs := [raiseOperand "x" 4 .i32, raiseOperand "x" 4 .i32]
      outputs := [raiseTemporary], package := "main" },
    { operator := some sumOperator, inputs := [raisePointee, raiseTemporary]
      outputs := [raisePointee], package := "main" }]
  frameSize := 12

/-- A machine in the function, with 5 in what `p` points to and 4 in `x`. -/
def raiseMachine : Machine where
  program := { data := List.replicate nilGuard 0, functions := [raiseFunction] }
  primitives := sumTable
  options := {}
  work := {
    arena := {
      image := #[0, 0, 0, 0, 0, 0, 0, 0, 20, 0, 0, 0, 4, 0, 0, 0, 0, 0, 0, 0, 5, 0, 0, 0]
      stackStart := 8, stackEnd := 20, capacity := 24, limit := 24 }
    random := .ofSeed 0 }
  stack := {
    frames := [{ function := ⟨"main", "raise"⟩, fp := 8, callerFp := 8, size := 12
                 returnsToCaller := false }]
    maxDepth := 1 }

theorem hasGenerics_sumTable : sumTable.HasGenerics := by
  intro op code hcode
  cases op with
  | add =>
    cases hcode
    rfl
  | compare c => cases c <;> cases hcode
  | _ => cases hcode

theorem shipped_sumTable : ∀ p ∈ sumTable.entries, p.Shipped ∨ p.body.Blind := by
  intro p hp
  simp only [sumTable, List.mem_cons, List.not_mem_nil, or_false] at hp
  rcases hp with rfl | rfl
  · exact .inl (by simp [Primitive.Shipped, library])
  · exact .inr (Body.blind_generic .add)

theorem applies_sumOperator : Node.Applies { operator := some sumOperator } sumOperator :=
  ⟨rfl, rfl, rfl⟩

/-- `*p += x + x` makes 13 of 5, and the long form can stand in for it. -/
theorem compound_assignment_expands_raiseMachine : ∃ f',
    raiseDraft.layoutLowered {} [] [] (Lowering.assignment [.value raiseTarget] .add [doubled])
      sumLowering = .ok raiseFunction ∧
    raiseDraft.layoutLowered {} [] [] (Lowering.computeThenApply (.value raiseTarget)
      { operator := some sumOperator } raiseTarget [doubled]) sumLowering = .ok f' ∧
    raiseFunction.StandsIn sumTable f' ∧
    ((Progress.running ⟨raiseMachine, [.call 0 8 []]⟩).finish? 5).map (·.1.arena.image[20]?) =
      some (some 13) := by
  have hexpands := (@compound_assignment_expands raiseDraft {} [] [] sumLowering .add "und.add"
    sumOperator _ (.value raiseTarget) { operator := some sumOperator } raiseTarget rfl rfl rfl
    hasGenerics_sumTable shipped_sumTable rfl rfl applies_sumOperator).2 [] doubled sumOperator _ _
    .i32 ⟨rfl, rfl, rfl⟩ rfl rfl rfl rfl
  have hlower : Lowering.assignment [.value raiseTarget] .add [doubled] sumLowering =
      .ok raiseBody { sumLowering with freshNames := 1 } := rfl
  have hlayout : (raiseDraft.enclosing [] [] raiseBody).layout {} = .ok raiseFunction := rfl
  have hshort : raiseDraft.layoutLowered {} [] []
      (Lowering.assignment [.value raiseTarget] .add [doubled]) sumLowering = .ok raiseFunction :=
    FunctionDraft.layoutLowered_eq_ok.mpr ⟨_, _, hlower, hlayout⟩
  rw [List.nil_append, hshort] at hexpands
  obtain ⟨f', hlong, hstands⟩ := hexpands.exists_ok
  exact ⟨f', hshort, hlong, hstands, by decide +kernel⟩

end FlatMachine
