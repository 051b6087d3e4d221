import FlatMachine.Proofs.Draft
import FlatMachine.Proofs.FrameLayout
import FlatMachine.Proofs.Signatures

/-!
# What the layout has checked

The types that the layout finds for the operands of a node are those they have in the struct table
of the program, and a node that passes its checks has the types that its operator asks for.
-/

namespace FlatMachine

namespace FrameLayout

variable {l : FrameLayout} {op : Operator} {i pc length : Nat} {first first' : Option Ty}
  {os : List Operand} {ps : List Param} {tys ins outs : List Ty} {n : Node}

theorem inputTy_eq (l : FrameLayout) (o : Operand) : l.inputTy o = o.inputTy l.structs := rfl

/-- The first type is that of the first input, unless it is known already. -/
theorem checkInputs_eq_ok (hos : List.Forall₂ (fun o ty => o.inputTy l.structs = .ok ty) os tys)
    (hlen : os.length = ps.length) (h : l.checkInputs op i first os ps = .ok first') :
    first' = first.or tys.head? ∧ List.Forall₂ (fun p ty => p.accepts ty = true ∧
      (p.sameAsFirst = true → first' = some ty)) ps tys := by
  induction hos generalizing ps i first with
  | nil =>
    obtain rfl := List.length_eq_zero_iff.mp hlen.symm
    cases h
    exact ⟨by simp, .nil⟩
  | @cons o ty os tys ho _ ih =>
    cases ps with
    | nil => cases hlen
    | cons p ps =>
      have hlen := Nat.succ.inj hlen
      rw [checkInputs, inputTy_eq] at h
      obtain ⟨ty', hty', h⟩ := bind_eq_ok.mp h
      cases ho.symm.trans hty'
      by_cases haccepts : p.accepts ty = true
      · simp only [haccepts] at h
        cases first with
        | none =>
          obtain ⟨rfl, htail⟩ := ih hlen h
          exact ⟨rfl, .cons ⟨haccepts, fun _ => rfl⟩ htail⟩
        | some head =>
          by_cases hhead : (p.sameAsFirst && head != ty) = true
          · simp only [hhead] at h
            cases h
          · simp only [hhead] at h
            obtain ⟨rfl, htail⟩ := ih hlen h
            refine ⟨rfl, .cons ⟨haccepts, fun hsame => ?_⟩ htail⟩
            have hty : head = ty := by simpa [hsame] using hhead
            rw [hty]
            rfl
      · simp only [haccepts] at h
        cases h

theorem checkOutputs_eq_ok (hos : List.Forall₂ (fun o ty => o.valueTy l.structs = .ok ty) os tys)
    (hlen : os.length ≤ ps.length) (h : l.checkOutputs op i first os ps = .ok ()) :
    List.Forall₂ (fun p ty => ∀ expected, p.expected? first = some expected → ty = expected)
      (ps.take tys.length) tys := by
  induction hos generalizing ps i with
  | nil => exact .nil
  | @cons o ty os tys ho _ ih =>
    cases ps with
    | nil => cases hlen
    | cons p ps =>
      have hlen := Nat.le_of_succ_le_succ hlen
      rw [checkOutputs] at h
      rw [List.length_cons, List.take_succ_cons]
      have hfold : (if p.ty.isDefined = true then some p.ty else first) = p.expected? first := rfl
      rw [hfold] at h
      cases hexpected : p.expected? first with
      | none =>
        rw [hexpected] at h
        refine .cons (fun _ heq => ?_) (ih hlen h)
        cases hexpected.symm.trans heq
      | some expected =>
        rw [hexpected] at h
        obtain ⟨ty', hty', h⟩ := bind_eq_ok.mp h
        cases ho.symm.trans hty'
        by_cases hne : (ty != expected) = true
        · simp only [hne] at h
          cases h
        · simp only [hne] at h
          refine .cons (fun _ heq => ?_) (ih hlen h)
          cases hexpected.symm.trans heq
          simpa using hne

theorem checkSignature_eq_ok {signature : Signature}
    (hins : List.Forall₂ (fun o ty => o.inputTy l.structs = .ok ty) n.inputs ins)
    (houts : List.Forall₂ (fun o ty => o.valueTy l.structs = .ok ty) n.outputs outs)
    (hlen : n.outputs.length ≤ signature.outputs.length)
    (h : l.checkSignature op signature n = .ok ()) : signature.Admits ins outs := by
  unfold checkSignature at h
  by_cases hinputs : n.inputs.length ≠ signature.inputs.length
  · simp only [if_pos hinputs] at h
    cases h
  · simp only [if_neg hinputs] at h
    obtain ⟨first, hfirst, h⟩ := bind_eq_ok.mp h
    obtain ⟨rfl, haccepts⟩ := checkInputs_eq_ok hins (not_not.mp hinputs) hfirst
    exact ⟨haccepts, checkOutputs_eq_ok houts hlen h⟩

end FrameLayout

/-- The types of a node's inputs and outputs are what the node asks for. -/
def Node.Checked (n : Node) (ins outs : List Ty) : Prop :=
  match n.operator with
  | none => ins = [] ∨ ∃ ty, ins = [ty] ∧ outs = [ty]
  | some (.jump _ _) => ∀ ty ∈ ins, ty = .bool
  | some (.native _ _ signature) =>
    signature.Admits ins outs ∧ outs.length = signature.outputs.length
  | some (.call _ signature) => signature.Admits ins outs

namespace FrameLayout

variable {l : FrameLayout} {pc length : Nat} {ins outs : List Ty} {n : Node}

theorem checkBare_eq_ok
    (hins : List.Forall₂ (fun o ty => o.inputTy l.structs = .ok ty) n.inputs ins)
    (houts : List.Forall₂ (fun o ty => o.valueTy l.structs = .ok ty) n.outputs outs)
    (h : l.checkBare n = .ok ()) : ins = [] ∨ ∃ ty, ins = [ty] ∧ outs = [ty] := by
  unfold checkBare at h
  split at h
  · rename_i hinputs
    rw [hinputs] at hins
    exact .inl (List.forall₂_nil_left_iff.mp hins)
  · rename_i input output hinputs houtputs
    rw [hinputs] at hins
    rw [houtputs] at houts
    obtain ⟨source, _, hsource, hnil, rfl⟩ := List.forall₂_cons_left_iff.mp hins
    obtain rfl := List.forall₂_nil_left_iff.mp hnil
    obtain ⟨target, _, htarget, hnil, rfl⟩ := List.forall₂_cons_left_iff.mp houts
    obtain rfl := List.forall₂_nil_left_iff.mp hnil
    obtain ⟨source', hsource', h⟩ := bind_eq_ok.mp h
    obtain ⟨target', htarget', h⟩ := bind_eq_ok.mp h
    cases hsource.symm.trans hsource'
    cases htarget.symm.trans htarget'
    split at h
    · rename_i heq
      exact .inr ⟨source, rfl, heq ▸ rfl⟩
    · cases h
  · cases h

theorem checkNode_eq_ok
    (hins : List.Forall₂ (fun o ty => o.inputTy l.structs = .ok ty) n.inputs ins)
    (houts : List.Forall₂ (fun o ty => o.valueTy l.structs = .ok ty) n.outputs outs)
    (h : l.checkNode pc length n = .ok ()) : n.Checked ins outs := by
  unfold checkNode at h
  unfold Node.Checked
  split at h
  · rename_i hop
    rw [hop]
    exact checkBare_eq_ok hins houts h
  · rename_i onTrue onFalse hop
    rw [hop]
    intro ty hty
    cases hinputs : n.inputs with
    | nil =>
      rw [hinputs] at hins
      rw [List.forall₂_nil_left_iff.mp hins] at hty
      cases hty
    | cons condition rest =>
      rw [hinputs] at h hins
      cases rest with
      | nil =>
        obtain ⟨first, rest, hcondition, hnil, rfl⟩ := List.forall₂_cons_left_iff.mp hins
        obtain rfl := List.forall₂_nil_left_iff.mp hnil
        obtain rfl := List.mem_singleton.mp hty
        obtain ⟨ty', hty', h⟩ := bind_eq_ok.mp h
        cases hcondition.symm.trans hty'
        by_cases hne : ty ≠ .bool
        · rw [if_pos hne] at h
          cases h
        · exact not_not.mp hne
      | cons second rest => cases h
  · rename_i code name signature hop
    rw [hop]
    by_cases hlen : n.outputs.length ≠ signature.outputs.length
    · simp only [if_pos hlen] at h
      cases h
    · simp only [if_neg hlen] at h
      have hlen := not_not.mp hlen
      exact ⟨checkSignature_eq_ok hins houts hlen.le h, houts.length_eq.symm.trans hlen⟩
  · rename_i callee signature hop
    rw [hop]
    by_cases hlen : signature.outputs.length < n.outputs.length
    · simp only [if_pos hlen] at h
      cases h
    · simp only [if_neg hlen] at h
      exact checkSignature_eq_ok hins houts (not_lt.mp hlen) h

end FrameLayout

/-- Every type that the draft of a function mentions is sized: those of the names it declares, and
those of the operands that were given to it with their storage. -/
structure FunctionDraft.Sized (fd : FunctionDraft) (t : StructTable) : Prop where
  declared : ∀ entry ∈ fd.declared, entry.2.Sized t
  operands : ∀ o ∈ fd.operands, o.storage ≠ .unassigned → o.ty.Sized t

theorem exists_forall₂ {α β : Type} {R : α → β → Prop} {as : List α} (h : ∀ a ∈ as, ∃ b, R a b) :
    ∃ bs, List.Forall₂ R as bs := by
  induction as with
  | nil => exact ⟨[], .nil⟩
  | cons a as ih =>
    rw [List.forall_mem_cons] at h
    obtain ⟨b, hb⟩ := h.1
    obtain ⟨bs, hbs⟩ := ih h.2
    exact ⟨b :: bs, .cons hb hbs⟩

namespace FrameLayout

variable {l : FrameLayout} {t : StructTable} {fd : FunctionDraft} {f : Function} {o : Operand}

/-- What binding yields is bound to something of a sized type. -/
theorem Binds.bound {written : Operand} (h : l.Binds written o) (hdraft : l.draft.Reachable)
    (hgrows : l.structs.Grows t) (hslots : ∀ slot ∈ l.inOrder, slot.ty.Sized t)
    (hglobals : ∀ g ∈ l.draft.globals, g.ty.Sized t)
    (hkept : written.storage ≠ .unassigned → written.ty.Sized t) : o.Bound t := by
  have hlinked := hgrows.chainLinked h.linked
  by_cases hunassigned : written.storage = .unassigned
  · have hsymbol := h.symbol hunassigned
    unfold FrameLayout.symbol at hsymbol
    split at hsymbol
    · rename_i slot hfound
      obtain ⟨hstorage, hty⟩ := Prod.mk.inj (Except.ok.inj hsymbol)
      refine ⟨?_, hty ▸ hslots slot (slot?_eq_some hfound).1, hlinked⟩
      rw [← hstorage]
      exact nofun
    · split at hsymbol
      · rename_i g hg
        obtain ⟨hstorage, hty⟩ := Prod.mk.inj (Except.ok.inj hsymbol)
        have hmem := List.mem_of_find?_eq_some hg
        obtain ⟨-, ⟨offset, hoffset⟩, -⟩ := hdraft.isGlobal g hmem
        refine ⟨?_, hty ▸ hglobals g hmem, hlinked⟩
        rw [← hstorage, hoffset]
        exact nofun
      · cases hsymbol
  · obtain ⟨hstorage, hty⟩ := h.kept hunassigned
    exact ⟨hstorage ▸ hunassigned, hty ▸ hkept hunassigned, hlinked⟩

/-- The operands of a finished node are settled, and the node is given what it asks for. -/
theorem Finishes.typed {pc length : Nat} {n n' : Node} (h : l.Finishes pc length n n')
    (hsettled : ∀ o ∈ n'.inputs ++ n'.outputs, o.Settled t) (hgrows : l.structs.Grows t) :
    ∃ ins outs, n'.Typed t ins outs ∧ n'.Checked ins outs := by
  have hlinked : ∀ o ∈ n'.inputs ++ n'.outputs, ∃ ty, o.valueTy l.structs = .ok ty := by
    intro o ho
    have hmem : o ∈ n'.operands := List.mem_flatMap.mpr ⟨o, ho, o.mem_nested⟩
    obtain ⟨written, -, hbinds⟩ := exists_of_forall₂_right h.operands hmem
    exact hbinds.linked.chainTy
  obtain ⟨ins, hins⟩ : ∃ ins, List.Forall₂ (fun o ty =>
      o.inputTy l.structs = .ok ty ∧ o.Supplies t ty) n'.inputs ins := by
    apply exists_forall₂
    intro o ho
    have ho := List.mem_append_left n'.outputs ho
    obtain ⟨ty, hty⟩ := hlinked o ho
    have hinput : ∀ {u : StructTable}, o.valueTy u = .ok ty →
        o.inputTy u = .ok (if o.byReference then .pointer ty else ty) := fun hu =>
      bind_eq_ok.mpr ⟨ty, hu, rfl⟩
    exact ⟨_, hinput hty, hsettled o ho, hinput (hgrows.valueTy hty)⟩
  obtain ⟨outs, houts⟩ : ∃ outs, List.Forall₂ (fun o ty =>
      o.valueTy l.structs = .ok ty ∧ o.HasTy t ty) n'.outputs outs := by
    apply exists_forall₂
    intro o ho
    have ho := List.mem_append_right n'.inputs ho
    obtain ⟨ty, hty⟩ := hlinked o ho
    exact ⟨ty, hty, hsettled o ho, hgrows.valueTy hty⟩
  refine ⟨ins, outs, ⟨hins.imp fun _ _ h => h.2, houts.imp fun _ _ h => h.2⟩, ?_⟩
  exact checkNode_eq_ok (hins.imp fun _ _ h => h.1) (houts.imp fun _ _ h => h.1) h.checked

/-- A laid-out function has typed slots and typed nodes. -/
theorem Makes.typed (h : l.Makes fd f) (hdraft : l.draft.Reachable) (hgrows : l.structs.Grows t)
    (hglobals : ∀ g ∈ l.draft.globals, g.ty.Sized t) (hsized : fd.Sized t) :
    (∀ o ∈ f.params ++ f.returns, o.HasTy t o.ty) ∧
      ∀ n ∈ f.body, ∃ ins outs, n.Typed t ins outs ∧ n.Checked ins outs := by
  have hslots : ∀ slot ∈ l.inOrder, slot.ty.Sized t := fun slot hslot =>
    hsized.declared _ (h.laidOut.mem_declared hslot)
  constructor
  · intro o ho
    obtain ⟨⟨name, ty⟩, hentry, -, rfl, hchain, offset, hstorage, -⟩ := h.exists_standsFor ho
    have hself : o.Bound t := by
      refine ⟨?_, hsized.declared _ hentry, ?_⟩
      · rw [hstorage]
        exact nofun
      · rw [hchain]
        trivial
    refine ⟨fun x hx => ?_, ?_⟩
    · rw [Operand.nested_eq, hchain] at hx
      cases List.mem_singleton.mp hx
      exact hself
    · rw [Operand.valueTy, hchain]
      rfl
  · intro n' hn'
    obtain ⟨pc, hpc⟩ := List.getElem?_of_mem hn'
    obtain ⟨n, hn, hfinishes⟩ := h.nodes pc n' hpc
    apply hfinishes.typed ?_ hgrows
    intro o ho x hx
    have hmem : x ∈ n'.operands := List.mem_flatMap.mpr ⟨o, ho, hx⟩
    obtain ⟨written, hwritten, hbinds⟩ := exists_of_forall₂_right hfinishes.operands hmem
    apply hbinds.bound hdraft hgrows hslots hglobals
    exact hsized.operands written (List.mem_flatMap.mpr ⟨n, hn, hwritten⟩)

end FrameLayout

end FlatMachine
