import FlatMachine.Proofs.DeclaredSlots
import FlatMachine.Proofs.Interchange

/-!
# Layouts of bodies that differ in their operands

The layout of a function asks of an operand which symbol it names and which chain leads on from
there. Two bodies whose nodes agree on that are both refused or both laid out, to interchangeable
functions.
-/

namespace FlatMachine

/-- Both are refused, or both give results that are related. -/
inductive Agree {α β : Type} (R : α → β → Prop) : Except Error α → Except Error β → Prop where
  | given {a : α} {b : β} (h : R a b) : Agree R (.ok a) (.ok b)
  | refused (e f : Error) : Agree R (.error e) (.error f)

namespace Agree

variable {α β γ δ : Type} {R S : α → β → Prop} {T : γ → δ → Prop} {r : Except Error α}
  {r' : Except Error β}

theorem bind {f : α → Except Error γ} {g : β → Except Error δ} (h : Agree R r r')
    (hf : ∀ a b, R a b → Agree T (f a) (g b)) : Agree T (r >>= f) (r' >>= g) := by
  cases h with
  | given h => exact hf _ _ h
  | refused e f => exact .refused e f

/-- What follows the same result. -/
theorem bind_same {f : α → Except Error γ} {g : α → Except Error δ}
    (hf : ∀ a, r = .ok a → Agree T (f a) (g a)) : Agree T (r >>= f) (r >>= g) := by
  cases r with
  | ok a => exact hf a rfl
  | error e => exact .refused e e

/-- What is given for the one is given for the other. -/
theorem exists_ok {a : α} (h : Agree R (.ok a) r') : ∃ b, r' = .ok b ∧ R a b := by
  cases h with
  | given h => exact ⟨_, rfl, h⟩

theorem mapError (h : Agree R r r') (f g : Error → Error) :
    Agree R (r.mapError f) (r'.mapError g) := by
  cases h with
  | given h => exact .given h
  | refused e e' => exact .refused (f e) (g e')

theorem imp (h : Agree R r r') (hRS : ∀ a b, R a b → S a b) : Agree S r r' := by
  cases h with
  | given h => exact .given (hRS _ _ h)
  | refused e f => exact .refused e f

theorem of_refused (h : ∀ a, r ≠ .ok a) (h' : ∀ b, r' ≠ .ok b) : Agree R r r' := by
  cases r with
  | ok a => exact absurd rfl (h a)
  | error e =>
    cases r' with
    | ok b => exact absurd rfl (h' b)
    | error f => exact .refused e f

theorem refl {R : α → α → Prop} (h : ∀ a, R a a) : Agree R r r := by
  cases r with
  | ok a => exact .given (h a)
  | error e => exact .refused e e

theorem mapM {f : α → Except Error γ} {g : β → Except Error δ} {as : List α} {bs : List β}
    (h : List.Forall₂ (fun a b => Agree T (f a) (g b)) as bs) :
    Agree (List.Forall₂ T) (as.mapM f) (bs.mapM g) := by
  induction h with
  | nil => exact .given .nil
  | cons hab _ ih =>
    rw [List.mapM_cons, List.mapM_cons]
    exact hab.bind fun c d hcd => ih.bind fun cs ds hrest => .given (.cons hcd hrest)

end Agree

/-- The bound operands are the written ones, with the same symbol and chain. -/
def Operand.BoundAlike (o o' b b' : Operand) : Prop := ∃ storage ty chain package package',
  b = { o with storage, ty, chain, package } ∧
    b' = { o' with storage, ty, chain, package := package' }

namespace Operand.BoundAlike

variable {o o' b b' : Operand}

theorem twin (h : o.BoundAlike o' b b') (hname : o'.name = o.name) : b.Twin b' := by
  obtain ⟨_, _, _, _, _, rfl, rfl⟩ := h
  exact ⟨hname, rfl, rfl, rfl⟩

theorem twinInput (h : o.BoundAlike o' b b') (hname : o'.name = o.name)
    (hmode : o'.byReference = o.byReference) : b.TwinInput b' := by
  have htwin := h.twin hname
  obtain ⟨_, _, _, _, _, rfl, rfl⟩ := h
  exact ⟨htwin, hmode⟩

end Operand.BoundAlike

/-- The operands name the same symbol and go on by the same chain. -/
structure Operand.SameSource (o o' : Operand) : Prop where
  name_eq : o'.name = o.name
  ty_eq : o'.ty = o.ty
  storage_eq : o'.storage = o.storage
  chain_eq : o'.chain = o.chain
  package_eq : o'.package = o.package

/-- An operand that names a symbol of that type, and is not bound to it yet. -/
structure Operand.Names (o : Operand) (name : String) (ty : Ty) : Prop where
  name_eq : o.name = name
  chain_eq : o.chain = []
  unassigned : o.storage = .unassigned
  ty_eq : o.ty.isDefined = true → o.ty = ty

namespace FrameLayout

variable {l : FrameLayout} {table : PrimitiveTable} {pc length i : Nat} {o o' : Operand}
  {os os' : List Operand} {n n' : Node} {ns ns' : List Node} {ty : Ty} {name : String}
  {declared : List (String × Ty)}

section Operands

theorem agree_bind (h : o.SameSource o') : Agree (o.BoundAlike o') (l.bind o) (l.bind o') := by
  have horigin : l.origin o' = l.origin o := by
    unfold origin
    rw [h.name_eq, h.ty_eq, h.storage_eq, h.package_eq]
  rw [bind_eq, bind_eq, horigin, h.chain_eq]
  apply Agree.bind_same
  intro origin _
  apply Agree.bind_same
  intro chain _
  exact .given ⟨_, _, _, _, _, rfl, rfl⟩

/-- What starts at a declared symbol is bound to its slot, and goes on from its type. -/
theorem LaidOut.bind_symbol (h : l.LaidOut declared) (hmem : (o.name, ty) ∈ declared)
    (hunassigned : o.storage = .unassigned) (hty : o.ty.isDefined = true → o.ty = ty) :
    ∃ slot ∈ l.inOrder, slot.name = o.name ∧ slot.ty = ty ∧
      l.bind o = l.linkChain ty o.chain >>= fun chain => .ok { o with
        storage := .frame slot.offset, ty, chain
        package := if o.package = "" then l.package else o.package } := by
  obtain ⟨slot, hslot, hname, hslotTy⟩ := h.ty_eq o.name ty hmem
  refine ⟨slot, hslot, hname, hslotTy, ?_⟩
  have hsymbol := h.symbol hslot o.package
  have hknown : ¬ (o.ty.isDefined && o.ty != ty) = true := by
    intro hne
    obtain ⟨hdefined, hne⟩ := Bool.and_eq_true_iff.mp hne
    exact bne_iff_ne.mp hne (hty hdefined)
  rw [hname, hslotTy] at hsymbol
  rw [bind_eq, origin, if_pos hunassigned, hsymbol]
  change ((if (o.ty.isDefined && o.ty != ty) = true then _ else _) >>= _) = _
  rw [if_neg hknown]
  rfl

/-- The name of a declared symbol is bound to its slot. -/
theorem LaidOut.bind_names (h : l.LaidOut declared) (hmem : (name, ty) ∈ declared)
    (ho : o.Names name ty) : ∃ slot ∈ l.inOrder, slot.name = name ∧ slot.ty = ty ∧
      l.bind o = .ok { o with
        storage := .frame slot.offset, ty, chain := []
        package := if o.package = "" then l.package else o.package } := by
  rw [← ho.name_eq] at hmem ⊢
  obtain ⟨slot, hslot, hname, hty, hbind⟩ := h.bind_symbol hmem ho.unassigned ho.ty_eq
  rw [ho.chain_eq] at hbind
  exact ⟨slot, hslot, hname, hty, hbind⟩

/-- Two operands that name the same declared symbol. -/
theorem LaidOut.agree_names (h : l.LaidOut declared) (hmem : (name, ty) ∈ declared)
    (ho : o.Names name ty) (ho' : o'.Names name ty) :
    Agree (fun b b' => o.BoundAlike o' b b' ∧ b.ty = ty ∧ b.chain = []) (l.bind o) (l.bind o') := by
  obtain ⟨slot, hslot, hname, -, hbind⟩ := h.bind_names hmem ho
  obtain ⟨slot', hslot', hname', -, hbind'⟩ := h.bind_names hmem ho'
  cases List.inj_on_of_nodup_map h.nodup hslot hslot' (hname.trans hname'.symm)
  rw [hbind, hbind']
  exact .given ⟨⟨_, _, _, _, _, rfl, rfl⟩, rfl, rfl⟩

end Operands

section Checks

theorem inputTy_twin (h : o.TwinInput o') : l.inputTy o' = l.inputTy o := by
  rw [inputTy, inputTy, h.valueTy_eq, h.byReference_eq]

theorem checkInputs_twin {op : Operator} {ps : List Param}
    (h : List.Forall₂ Operand.TwinInput os os') (first : Option Ty) :
    l.checkInputs op i first os' ps = l.checkInputs op i first os ps := by
  induction h generalizing i first ps with
  | nil => rfl
  | cons ho _ ih =>
    cases ps with
    | nil => rfl
    | cons p ps => simp only [checkInputs, inputTy_twin ho, ih]

theorem checkOutputs_twin {op : Operator} {ps : List Param} {first : Option Ty}
    (h : List.Forall₂ Operand.Twin os os') :
    l.checkOutputs op i first os' ps = l.checkOutputs op i first os ps := by
  induction h generalizing i ps with
  | nil => rfl
  | cons ho _ ih =>
    cases ps with
    | nil => rfl
    | cons p ps => simp only [checkOutputs, ho.valueTy_eq, ih]

theorem checkSignature_twin {op : Operator} {signature : Signature}
    (hinputs : List.Forall₂ Operand.TwinInput n.inputs n'.inputs)
    (houtputs : List.Forall₂ Operand.Twin n.outputs n'.outputs) :
    l.checkSignature op signature n' = l.checkSignature op signature n := by
  unfold checkSignature
  rw [← hinputs.length_eq]
  simp only [checkInputs_twin hinputs, checkOutputs_twin houtputs]

/-- The checks of an operator see of the operands what the operator sees. -/
theorem checkNode_twin {op : Operator} (hop : n.operator = some op) (hop' : n'.operator = some op)
    (hinputs : List.Forall₂ Operand.TwinInput n.inputs n'.inputs)
    (houtputs : List.Forall₂ Operand.Twin n.outputs n'.outputs) :
    l.checkNode pc length n' = l.checkNode pc length n := by
  unfold checkNode
  rw [hop, hop']
  cases op with
  | native code name signature =>
    simp only [← houtputs.length_eq, checkSignature_twin hinputs houtputs]
  | call function signature =>
    simp only [← houtputs.length_eq, checkSignature_twin hinputs houtputs]
  | jump onTrue onFalse =>
    dsimp only
    generalize n.inputs = os, n'.inputs = os' at hinputs
    cases hinputs with
    | nil => rfl
    | cons ho hrest =>
      cases hrest with
      | nil => simp only [inputTy_twin ho]
      | cons ho' hrest => simp only [List.length_cons, hrest.length_eq]

end Checks

section Nodes

/-- Finishing the nodes succeeds for both or for none, and makes interchangeable nodes of them. -/
def Matches (l : FrameLayout) (table : PrimitiveTable) (n n' : Node) : Prop :=
  ∀ pc length, Agree (Node.Interchangeable table) (l.finishNode pc length n)
    (l.finishNode pc length n')

theorem Matches.refl (l : FrameLayout) (table : PrimitiveTable) (n : Node) :
    l.Matches table n n := fun _ _ => Agree.refl fun _ => .same rfl

/-- The bound nodes are the written ones, with related operands. -/
structure BoundNodes (R : Operand → Operand → Prop) (n n' b b' : Node) : Prop where
  operator_eq : b.operator = n.operator
  operator_eq' : b'.operator = n'.operator
  package_eq : n'.package = n.package → b'.package = b.package
  inputs : List.Forall₂ Operand.TwinInput b.inputs b'.inputs
  outputs : List.Forall₂ R b.outputs b'.outputs

/-- The nodes declare the same names. -/
def DeclareSame (n n' : Node) : Prop := declarations n = declarations n'

/-- Nodes match if binding them succeeds for both or for none, and the bound ones are checked alike
and do the same. -/
theorem matches_of_bind {R : Operand → Operand → Prop}
    (hinputs : List.Forall₂ (fun o o' => Agree Operand.TwinInput (l.bind o) (l.bind o'))
      n.inputs n'.inputs)
    (houtputs : List.Forall₂ (fun o o' => Agree R (l.bind o) (l.bind o')) n.outputs n'.outputs)
    (hcheck : ∀ pc length b b', BoundNodes R n n' b b' →
      l.checkNode pc length b' = l.checkNode pc length b)
    (hsame : ∀ b b', BoundNodes R n n' b b' → b.Interchangeable table b') :
    l.Matches table n n' := by
  intro pc length
  unfold finishNode
  apply Agree.mapError
  have hbind : Agree (BoundNodes R n n')
      (l.bindNode { n with package := if n.package = "" then l.package else n.package })
      (l.bindNode { n' with package := if n'.package = "" then l.package else n'.package }) := by
    refine (Agree.mapM hinputs).bind fun is is' his => ?_
    refine (Agree.mapM houtputs).bind fun os os' hos => .given ⟨rfl, rfl, ?_, his, hos⟩
    intro hpackage
    dsimp only
    rw [hpackage]
  refine hbind.bind fun b b' hb => ?_
  rw [hcheck pc length b b' hb]
  exact Agree.bind_same fun _ _ => .given (hsame b b' hb)

/-- The declarations of one operand each. -/
theorem matches_declaration (hop : n.operator = none) (hop' : n'.operator = none)
    (hinputs : n.inputs = []) (hinputs' : n'.inputs = []) (houtputs : n.outputs = [o])
    (houtputs' : n'.outputs = [o']) (hbind : Agree Operand.TwinDeclared (l.bind o) (l.bind o')) :
    l.Matches table n n' := by
  intro pc length
  unfold finishNode
  apply Agree.mapError
  have houts : List.Forall₂ (fun o o' => Agree Operand.TwinDeclared (l.bind o) (l.bind o'))
      n.outputs n'.outputs := by
    rw [houtputs, houtputs']
    exact .cons hbind .nil
  have hcheck : ∀ {b : Node}, b.operator = none → b.inputs = [] →
      l.checkNode pc length b = .ok () := by
    intro b hb hempty
    rw [checkNode, hb]
    dsimp only
    rw [checkBare, hempty]
  unfold bindNode
  simp only [hinputs, hinputs', List.mapM_nil]
  refine Agree.bind (R := fun b b' => b.operator = none ∧ b'.operator = none ∧ b.inputs = [] ∧
    b'.inputs = [] ∧ List.Forall₂ Operand.TwinDeclared b.outputs b'.outputs) ?_ ?_
  · exact (Agree.mapM houts).bind fun os os' hos => .given ⟨hop, hop', rfl, rfl, hos⟩
  · rintro b b' ⟨hb, hb', hempty, hempty', hos⟩
    rw [hcheck hb hempty, hcheck hb' hempty']
    exact .given (.declares hb hb' hempty hempty' hos)

/-- Nodes with one operator, which does the same at both. -/
theorem matches_application {op : Operator} (hop : n.operator = some op)
    (hop' : n'.operator = some op)
    (hinputs : List.Forall₂ (fun o o' => Agree Operand.TwinInput (l.bind o) (l.bind o'))
      n.inputs n'.inputs)
    (houtputs : List.Forall₂ (fun o o' => Agree Operand.Twin (l.bind o) (l.bind o'))
      n.outputs n'.outputs)
    (hblind : ∀ code name signature p, op = .native code name signature → table.get code = .ok p →
      p.body.Blind ∨ p.Shipped ∧ n'.package = n.package) :
    l.Matches table n n' := by
  refine matches_of_bind hinputs houtputs (fun pc length b b' hb => ?_) fun b b' hb => ?_
  · exact checkNode_twin (hb.operator_eq.trans hop) (hb.operator_eq'.trans hop') hb.inputs
      hb.outputs
  · refine .applies (hb.operator_eq.trans hop) (hb.operator_eq'.trans hop') hb.inputs hb.outputs ?_
    intro code name signature p structs fp heq hp
    have htwin : Site.Twin ⟨structs, fp, b⟩ ⟨structs, fp, b'⟩ :=
      ⟨rfl, rfl, hb.operator_eq'.trans (hop'.trans (hop.symm.trans hb.operator_eq.symm)), hb.inputs,
        hb.outputs⟩
    rcases hblind code name signature p heq hp with hblind | ⟨hshipped, hpackage⟩
    · exact Primitive.execute_of_run htwin (hblind _ _ htwin)
    · exact hshipped.execute_twin htwin (hb.package_eq hpackage)

theorem agree_finishBody (h : List.Forall₂ (l.Matches table) ns ns') :
    Agree (List.Forall₂ (Node.Interchangeable table)) (l.finishBody length pc ns)
      (l.finishBody length pc ns') := by
  induction h generalizing pc with
  | nil => exact .given .nil
  | cons hn _ ih =>
    exact (hn pc length).bind fun _ _ hfirst => ih.bind fun _ _ hrest => .given (.cons hfirst hrest)

end Nodes

end FrameLayout

/-- The function in whose body these nodes stand between `front` and `back`. -/
def FunctionDraft.enclosing (fd : FunctionDraft) (front back ns : List Node) : FunctionDraft :=
  { fd with body := front ++ ns ++ back }

section Layout

variable {fd : FunctionDraft} {d : Draft} {table : PrimitiveTable} {front back ns ns' : List Node}

/-- If the nodes declare the same names, and match in the layout that all names are declared in,
then both functions are refused, or both are laid out and are interchangeable. -/
theorem FunctionDraft.agree_layout
    (hdeclares : List.Forall₂ FrameLayout.DeclareSame ns ns')
    (h : ∀ l : FrameLayout, l.draft = d → l.LaidOut (fd.enclosing front back ns).declared →
      List.Forall₂ (l.Matches table) ns ns') :
    Agree (Function.Interchangeable table) ((fd.enclosing front back ns).layout d)
      ((fd.enclosing front back ns').layout d) := by
  have hbody : (front ++ ns' ++ back).flatMap FrameLayout.declarations =
      (front ++ ns ++ back).flatMap FrameLayout.declarations := by
    have hnodes : ns'.flatMap FrameLayout.declarations = ns.flatMap FrameLayout.declarations := by
      clear h
      induction hdeclares with
      | nil => rfl
      | cons hn _ ih => rw [List.flatMap_cons, List.flatMap_cons, hn.symm, ih]
    simp only [List.flatMap_append, hnodes]
  unfold FunctionDraft.layout
  refine Agree.bind_same fun params hparams => ?_
  obtain ⟨params, l₁⟩ := params
  refine Agree.bind_same fun returns hreturns => ?_
  obtain ⟨returns, l₂⟩ := returns
  simp only [enclosing, hbody]
  refine Agree.bind_same fun l hlocals => ?_
  obtain ⟨h₁, hl₁, -⟩ := (FrameLayout.laidOut_nil fd.package d).declareBound hparams
  obtain ⟨h₂, hl₂, -⟩ := h₁.declareBound hreturns
  obtain ⟨hl, hl₃⟩ := h₂.declareAll hlocals
  have hsame : ∀ ms : List Node, List.Forall₂ (l.Matches table) ms ms := fun ms =>
    List.forall₂_same.mpr fun n _ => .refl l table n
  have hmatches := List.rel_append (List.rel_append (hsame front)
    (h l (hl₁.trans (hl₂.trans hl₃)).draft_eq hl)) (hsame back)
  rw [← hmatches.length_eq]
  exact (FrameLayout.agree_finishBody hmatches).bind fun body body' hbody =>
    .given ⟨rfl, rfl, rfl, rfl, hbody⟩

end Layout

end FlatMachine
