import FlatMachine.Proofs.Checking
import FlatMachine.Proofs.StackStep

/-!
# Executing typed nodes

Declarations, moves, operators, calls, jumps and returns check types and widths again when they are
executed. For a node that the layout has checked these checks pass.
-/

namespace FlatMachine

open FlatMachine.Action

theorem Program.function_eq_ok {p : Program} {name : FunctionName} {g : Function}
    (h : p.function? name = some g) : p.function name = .ok g := by
  rw [Program.function, h]

/-- The operator is one of the table, or calls a function of the program by its signature. -/
def Operator.Resolved (p : Program) (table : PrimitiveTable) : Operator → Prop
  | .native code name signature =>
    ∃ q, table.get code = .ok q ∧ q.name = name ∧ q.signature = signature
  | .call callee signature => ∃ g, p.function? callee = some g ∧ g.signature = signature
  | .jump _ _ => True

/-- Where a node compares two values of any type, they can be read as a whole. -/
def Node.ComparesReadable (t : StructTable) (n : Node) : Prop :=
  ∀ code name signature, n.operator = some (.native code name signature) →
    name = "und.eq" ∨ name = "und.uneq" →
      ∀ o ∈ n.inputs, ∀ ty, o.inputTy t = .ok ty → ty.isReadable = true

/-- The operands of a node have the types that its operator, which is known, asks for. -/
structure Node.WellTyped (p : Program) (table : PrimitiveTable) (n : Node) : Prop where
  typed : ∃ ins outs, n.Typed p.structs ins outs ∧ n.Checked ins outs
  resolved : ∀ op, n.operator = some op → op.Resolved p table
  readable : n.ComparesReadable p.structs

/-- The nodes of all functions are well typed. -/
structure Program.WellTyped (p : Program) (table : PrimitiveTable) : Prop where
  shipped : ∀ q ∈ table.entries, q.Shipped
  fields : p.structs.SizedFields
  slots : ∀ f ∈ p.functions, ∀ o ∈ f.params ++ f.returns, o.HasTy p.structs o.ty
  nodes : ∀ f ∈ p.functions, ∀ n ∈ f.body, n.WellTyped p table

/-- The arguments have the widths of the parameters. -/
def Function.Accepts (t : StructTable) (f : Function) (args : List Bytes) : Prop :=
  List.Forall₂ (fun (o : Operand) (bytes : Bytes) => o.ty.size t = .ok bytes.length) f.params args

namespace Machine

section Arena

variable {t : StructTable} {a : Arena} {fp : Nat} {o : Operand} {ty : Ty}
  (hfields : t.SizedFields)
include hfields

theorem dynamic_declare (ho : o.HasTy t ty) :
    Ends (declare t fp o) a (fun _ _ => True) (fun e _ => e.Dynamic) := by
  simp only [declare, ends_bind, ends_query, ends_update]
  apply (ho.gives_place hfields).imp
  intro place hplace
  apply Arena.dynamic_zero.imp
  intro b _
  obtain ⟨rfl, -⟩ := hplace
  have hsized := ho.sized hfields
  split
  · rename_i target _ htarget
    rw [htarget] at hsized
    obtain ⟨size, hsize⟩ := Ty.Sized.size (show target.Sized t from hsized)
    simp only [ends_bind, ends_ofExcept, Action.ends_advance, ends_update, hsize, gives_ok]
    exact Arena.dynamic_allocate.imp fun _ _ => Arena.dynamic_writeHandle
  · trivial

theorem dynamic_declareAll {os : List Operand} {tys : List Ty}
    (hos : List.Forall₂ (Operand.HasTy t) os tys) :
    Ends (declareAll t fp os) a (fun _ _ => True) (fun e _ => e.Dynamic) := by
  induction hos generalizing a with
  | nil => trivial
  | cons ho _ ih =>
    simp only [declareAll, ends_bind]
    exact (dynamic_declare hfields ho).imp fun _ _ _ => ih

theorem dynamic_move {input output : Operand} (hinput : input.Supplies t ty)
    (houtput : output.HasTy t ty) :
    Gives (move t fp input output a) (fun _ => True) Error.Dynamic := by
  simp only [move, gives_bind, gives_ite, gives_error]
  apply (hinput.gives_bytes hfields).imp
  intro bytes hbytes
  apply (houtput.gives_place hfields).imp
  intro target htarget
  have hlen : bytes.length = target.size := Except.ok.inj (hbytes.symm.trans htarget.2)
  exact ⟨fun _ => Arena.dynamic_write, fun hne => absurd hlen hne⟩

theorem dynamic_executeBare {n : Node} {ins outs : List Ty} (hn : n.Typed t ins outs)
    (hchecked : ins = [] ∨ ∃ ty, ins = [ty] ∧ outs = [ty]) :
    Ends (executeBare t fp n) a (fun _ _ => True) (fun e _ => e.Dynamic) := by
  obtain ⟨hins, houts⟩ := hn
  unfold executeBare
  rcases hchecked with rfl | ⟨ty, rfl, rfl⟩
  · rw [List.forall₂_nil_right_iff.mp hins]
    exact dynamic_declareAll hfields houts
  · obtain ⟨input, _, hinput, hnil, heq⟩ := List.forall₂_cons_right_iff.mp hins
    obtain ⟨output, _, houtput, hnil', heq'⟩ := List.forall₂_cons_right_iff.mp houts
    rw [heq, heq', List.forall₂_nil_right_iff.mp hnil, List.forall₂_nil_right_iff.mp hnil']
    rw [ends_update]
    exact dynamic_move hfields hinput houtput

theorem dynamic_storeArgs {params : List Operand} {args : List Bytes}
    (hparams : ∀ o ∈ params, o.HasTy t o.ty)
    (hargs : List.Forall₂ (fun (o : Operand) (bytes : Bytes) => o.ty.size t = .ok bytes.length)
      params args) :
    Ends (storeArgs t fp params args) a (fun _ _ => True) (fun e _ => e.Dynamic) := by
  induction hargs generalizing a with
  | nil => trivial
  | @cons param bytes params args hwidth _ ih =>
    rw [List.forall_mem_cons] at hparams
    simp only [storeArgs, ends_bind, ends_query, ends_ite, ends_throw, ends_update]
    apply (hparams.1.gives_place hfields).imp
    intro place hplace
    have hlen : bytes.length = place.size := Except.ok.inj (hwidth.symm.trans hplace.2)
    refine ⟨fun hne => absurd hlen hne, fun _ => ?_⟩
    exact Arena.dynamic_write.imp fun _ _ => ih hparams.2

end Arena

section Machine

variable {m : Machine} {fp : Nat} {n : Node}

/-- A native operator of a well-typed node has its primitive, whose signature admits the types of
the operands. -/
theorem dynamic_native {code : Nat} {name : String} {signature : Signature}
    (hp : m.program.WellTyped m.primitives) (hn : n.WellTyped m.program m.primitives)
    (hop : n.operator = some (.native code name signature)) :
    Ends (executeNode fp n) m (fun _ _ => True) (fun e _ => e.Dynamic) := by
  obtain ⟨ins, outs, htyped, hchecked⟩ := hn.typed
  obtain ⟨q, hq, rfl, rfl⟩ := hn.resolved _ hop
  rw [Node.Checked, hop] at hchecked
  obtain ⟨hadmits, hlen⟩ := hchecked
  have hrespects := (hp.shipped q (PrimitiveTable.mem_of_get hq)).respectsSignature
  have hsite : Site.Typed ⟨m.program.structs, fp, n⟩ ins outs := ⟨htyped, hp.fields⟩
  simp only [executeNode, ends_bind, ends_get, hop, ends_ofExcept, hq, gives_ok, ends_onWork]
  apply hrespects.ends_execute hsite hadmits hlen
  intro hany ty hty
  obtain ⟨o, ho, hsupplies⟩ := exists_of_forall₂_right htyped.inputs hty
  exact hn.readable _ _ _ hop hany o ho ty hsupplies.inputTy_eq

theorem dynamic_bare (hp : m.program.WellTyped m.primitives)
    (hn : n.WellTyped m.program m.primitives) (hop : n.operator = none) :
    Ends (executeNode fp n) m (fun _ _ => True) (fun e _ => e.Dynamic) := by
  obtain ⟨ins, outs, htyped, hchecked⟩ := hn.typed
  rw [Node.Checked, hop] at hchecked
  simp only [executeNode, ends_bind, ends_get, hop, ends_onArena]
  exact dynamic_executeBare hp.fields htyped hchecked

theorem dynamic_jumpTarget {pc length : Nat} {onTrue onFalse : Int}
    (hp : m.program.WellTyped m.primitives) (hn : n.WellTyped m.program m.primitives)
    (hop : n.operator = some (.jump onTrue onFalse)) :
    Gives (m.jumpTarget fp pc n onTrue onFalse length) (fun _ => True) Error.Dynamic := by
  obtain ⟨ins, outs, htyped, hchecked⟩ := hn.typed
  rw [Node.Checked, hop] at hchecked
  rw [jumpTarget_eq, gives_bind]
  have htaken : Gives (m.jumpTaken fp n.inputs) (fun _ => True) Error.Dynamic := by
    unfold jumpTaken
    split
    · trivial
    · rename_i condition rest hinputs
      obtain ⟨hins, -⟩ := htyped
      rw [hinputs] at hins
      obtain ⟨ty, _, hcondition, -, rfl⟩ := List.forall₂_cons_left_iff.mp hins
      obtain rfl : ty = .bool := hchecked ty List.mem_cons_self
      simp only [gives_bind]
      apply (hcondition.gives_bool hp.fields).imp
      intro v hv
      obtain ⟨b, rfl⟩ := hv
      trivial
  apply htaken.imp
  intro taken _
  refine gives_jumpLanding.mono (fun _ _ => trivial) ?_
  rintro _ ⟨reason, rfl⟩
  trivial

/-- Entering a function with arguments of the right widths. -/
theorem dynamic_enter {f : Function} {callerFp : Nat} {args : List Bytes} {returnsToCaller : Bool}
    (hp : m.program.WellTyped m.primitives) (hf : f ∈ m.program.functions)
    (hargs : f.Accepts m.program.structs args) :
    Ends (enter f fp callerFp args returnsToCaller) m (fun _ _ => True) (fun e _ => e.Dynamic) := by
  have hparams : ∀ o ∈ f.params, o.HasTy m.program.structs o.ty := fun o ho =>
    hp.slots f hf o (List.mem_append_left _ ho)
  simp only [enter, ends_bind, ends_get, ends_ite, ends_throw, ends_update, CallStack.push,
    gives_bind, gives_ite, gives_ok, gives_error, gives_pure, ends_onArena]
  refine ⟨fun _ => trivial, fun _ => ⟨fun _ => ?_, fun _ => trivial⟩⟩
  apply Arena.dynamic_zero.imp
  intro a _
  exact dynamic_storeArgs hp.fields hparams hargs

theorem callee_types {g : Function} {ins outs : List Ty}
    (hp : m.program.WellTyped m.primitives) (hg : g ∈ m.program.functions)
    (h : g.signature.Admits ins outs) :
    ins = g.params.map (·.ty) ∧ outs = (g.returns.map (·.ty)).take outs.length := by
  have hdefined : ∀ o ∈ g.params ++ g.returns, o.ty.isDefined = true := fun o ho =>
    ((hp.slots g hg o ho).sized hp.fields).isDefined
  rw [List.forall_mem_append] at hdefined
  exact h.eq_of (List.forall_mem_map.mpr hdefined.1) (List.forall_mem_map.mpr hdefined.2)

theorem gives_args {t : StructTable} {a : Arena} {os params : List Operand}
    (hfields : t.SizedFields) (h : List.Forall₂ (Operand.Supplies t) os (params.map (·.ty))) :
    Gives (os.mapM (·.bytes t a fp))
      (List.Forall₂ (fun (o : Operand) (bytes : Bytes) => o.ty.size t = .ok bytes.length) params)
      Error.Dynamic := by
  induction params generalizing os with
  | nil =>
    rw [List.forall₂_nil_right_iff.mp h]
    exact .nil
  | cons param params ih =>
    obtain ⟨o, os, ho, hos, rfl⟩ := List.forall₂_cons_right_iff.mp h
    rw [List.mapM_cons]
    simp only [gives_bind, gives_pure]
    apply (ho.gives_bytes hfields).imp
    intro bytes hbytes
    exact (ih hos).imp fun args hargs => .cons hbytes hargs

theorem dynamic_callNode {callee : FunctionName} {signature : Signature}
    (hp : m.program.WellTyped m.primitives) (hn : n.WellTyped m.program m.primitives)
    (hop : n.operator = some (.call callee signature)) :
    Ends (callNode fp n callee) m (fun _ _ => True) (fun e _ => e.Dynamic) := by
  obtain ⟨ins, outs, htyped, hchecked⟩ := hn.typed
  rw [Node.Checked, hop] at hchecked
  obtain ⟨g, hg, rfl⟩ := hn.resolved _ hop
  have hmem : g ∈ m.program.functions := List.mem_of_find?_eq_some hg
  obtain ⟨rfl, -⟩ := callee_types hp hmem hchecked
  simp only [callNode, ends_bind, ends_get, ends_ofExcept, ends_ite, ends_throw,
    Program.function_eq_ok hg, gives_ok]
  refine ⟨fun _ => trivial, fun _ => ?_⟩
  exact (gives_args hp.fields htyped.inputs).imp fun args hargs => dynamic_enter hp hmem hargs

theorem gives_readSlots {slots : List Operand} (hp : m.program.WellTyped m.primitives)
    (hslots : ∀ o ∈ slots, o.HasTy m.program.structs o.ty) :
    Gives (m.readSlots fp slots) (List.Forall₂ (fun (o : Operand) (bytes : Bytes) =>
      o.ty.size m.program.structs = .ok bytes.length) slots) Error.Dynamic := by
  apply gives_mapM
  intro o ho
  simp only [Machine.place, gives_bind]
  apply ((hslots o ho).gives_place hp.fields).imp
  intro place hplace
  apply Arena.dynamic_read.imp
  intro bytes hlen
  rw [hlen]
  exact hplace.2

theorem dynamic_resultWrites {callee : Function} {os slots : List Operand} {outs : List Ty}
    {results : List Bytes} (hp : m.program.WellTyped m.primitives)
    (hos : List.Forall₂ (Operand.HasTy m.program.structs) os outs)
    (houts : outs = (slots.map (·.ty)).take outs.length)
    (hresults : List.Forall₂ (fun (o : Operand) (bytes : Bytes) =>
      o.ty.size m.program.structs = .ok bytes.length) slots results) :
    Gives (m.resultWrites callee fp os results) (fun _ => True) Error.Dynamic := by
  induction hos generalizing slots results with
  | nil => trivial
  | @cons o ty os outs ho _ ih =>
    cases hresults with
    | nil => cases houts
    | @cons slot bytes slots results hwidth hrest =>
      rw [List.map_cons, List.length_cons, List.take_succ_cons] at houts
      obtain ⟨rfl, htail⟩ := List.cons.inj houts
      simp only [resultWrites, Machine.place, gives_bind, gives_ite, gives_throw, gives_pure]
      apply (ho.gives_place hp.fields).imp
      intro place hplace
      have hlen : bytes.length = place.size := Except.ok.inj (hwidth.symm.trans hplace.2)
      exact ⟨fun hne => absurd hlen hne, fun _ => ih htail hrest⟩

/-- Storing the results of a callee in the outputs of the node that called it. -/
theorem dynamic_storeResults {calleeFp : Nat} {callee : FunctionName} {g : Function}
    {signature : Signature} (hp : m.program.WellTyped m.primitives)
    (hn : n.WellTyped m.program m.primitives) (hop : n.operator = some (.call callee signature))
    (hg : m.program.function? callee = some g) :
    Ends (storeResults calleeFp g fp n) m (fun _ _ => True) (fun e _ => e.Dynamic) := by
  obtain ⟨ins, outs, htyped, hchecked⟩ := hn.typed
  rw [Node.Checked, hop] at hchecked
  obtain ⟨g', hg', rfl⟩ := hn.resolved _ hop
  obtain rfl : g = g' := Option.some.inj (hg.symm.trans hg')
  have hmem : g ∈ m.program.functions := List.mem_of_find?_eq_some hg
  have hreturns : ∀ o ∈ g.returns, o.HasTy m.program.structs o.ty := fun o ho =>
    hp.slots g hmem o (List.mem_append_right _ ho)
  obtain ⟨-, houts⟩ := callee_types hp hmem hchecked
  simp only [storeResults, ends_bind, ends_query, gives_bind, ends_onArena]
  apply (gives_readSlots hp hreturns).imp
  intro results hresults
  apply (dynamic_resultWrites hp htyped.outputs houts hresults).imp
  intro writes _
  exact Site.dynamic_writeAll writes

/-- Executing a well-typed node inside a frame. -/
theorem dynamic_executeAt {f : Function} {pc : Nat} (hp : m.program.WellTyped m.primitives)
    (hn : n.WellTyped m.program m.primitives) :
    Ends (executeAt f fp pc n) m (fun _ _ => True) (fun e _ => e.Dynamic) := by
  unfold executeAt
  cases hop : n.operator with
  | none =>
    simp only [ends_bind, ends_modify]
    exact dynamic_bare hp hn hop
  | some op =>
    cases op with
    | native code name signature =>
      simp only [ends_bind, ends_modify]
      exact dynamic_native hp hn hop
    | call callee signature => exact dynamic_callNode hp hn hop
    | jump onTrue onFalse =>
      simp only [ends_bind, ends_query, ends_modify]
      exact dynamic_jumpTarget hp hn hop

end Machine

end Machine

end FlatMachine
