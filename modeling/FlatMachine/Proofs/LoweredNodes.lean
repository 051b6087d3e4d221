import FlatMachine.Proofs.PointerLiteral

/-!
# The nodes of a lowered assignment

Lowering joins the nodes of the target and of the value to one sequence and loses none of them. The
target's last node gives its place to the node that writes the target. A node of the value changes
only where it writes the target, or a part of it, from now on. Anything else is put in by lowering:
the declaration of a symbol, the node of a compound operator, or the copy of a pointer to a literal.
-/

namespace FlatMachine

open FlatMachine.Action

theorem modifyLast_concat {α : Type} (f : α → α) (init : List α) (a : α) :
    modifyLast f (init ++ [a]) = init ++ [f a] := by
  induction init with
  | nil => rfl
  | cons b init ih =>
    cases init with
    | nil => rfl
    | cons c init => exact congrArg (b :: ·) ih

/-- The node declares a symbol of this name by `:=`. -/
def Node.DeclaresShort (n : Node) (name : String) : Prop :=
  n.isDeclaration = true ∧ ∃ o, n.outputs.head? = some o ∧ o.name = name ∧ o.shortDeclared = true

/-- What becomes of a node of a literal. The initialisers, which are the nodes of that kind, write a
part of `base` from now on. -/
inductive Node.Initialises (kind : Node → Bool) (base : Operand) (n n' : Node) : Prop where
  | kept (hkind : kind n = false) (hn : n' = n)
  | part {output p : Operand} {access : Access} (hkind : kind n = true)
      (houtput : n.outputs.head? = some output) (hn : n' = n.modifyOutput fun _ => p)
      (hpart : p.PartOf base access)

namespace Lowering

variable {lw lw' : Lowering} {op : AssignOp} {t base : Operand} {target value ns : List Node}

theorem target?_eq_some : target? target = some t ↔
    ∃ init last rest, target = init ++ [last] ∧ last.outputs = t :: rest := by
  unfold target?
  constructor
  · intro h
    obtain ⟨last, hlast, ht⟩ := Option.bind_eq_some_iff.mp h
    obtain ⟨init, rfl⟩ := List.getLast?_eq_some_iff.mp hlast
    obtain ⟨rest, hrest⟩ := List.head?_eq_some_iff.mp ht
    exact ⟨init, last, rest, rfl, hrest⟩
  · rintro ⟨init, last, rest, rfl, hrest⟩
    simp [hrest]

section Compound

/-- The node of a compound operator. -/
def application (lw : Lowering) (operator : Operator) (t v : Operand) : Node :=
  { lw.node operator with inputs := [t, v], outputs := [t] }

/-- The local that is given out next. -/
def temporary (lw : Lowering) (ty : Ty) : Operand := lw.operand s!"$lcl{lw.freshNames}" ty

/-- What a compound assignment is lowered to, by whether its value is just an operand. -/
inductive Compounds (lw lw' : Lowering) (operator : Operator) (t : Operand)
    (target value : List Node) (last : Node) (ns : List Node) : Prop where
  | bare {v : Operand} (hbare : last.isBare = true) (hv : last.outputs.head? = some v)
      (hlw : lw' = lw)
      (hns : ns = target.dropLast ++ value.dropLast ++ [lw.application operator t v])
  | computed {result ty : Ty} (hbare : last.isBare = false)
      (hresult : lw.outputTy last = .ok result)
      (hty : (if result.isDefined then pure result else lw.knownTy t) = .ok ty)
      (hlw : lw' = { lw with freshNames := lw.freshNames + 1 })
      (hns : ns = target.dropLast ++ [lw.declaration (lw.temporary ty)] ++ value.dropLast ++
        [{ last with outputs := [lw.temporary ty] },
          lw.application operator t (lw.temporary ty)])

theorem shortAssignment_eq_ok {last : Node} (ht : target? target = some t)
    (hlast : value.getLast? = some last) : shortAssignment op target value lw = .ok ns lw' ↔
      ∃ name operator, op.primitive? = some name ∧ lw.primitives.operator name = .ok operator ∧
        Compounds lw lw' operator t target value last ns := by
  unfold shortAssignment
  simp only [get_bind_apply, ht, hlast]
  constructor
  · intro h
    obtain ⟨name, _, hprimitive, h⟩ := seq_eq_ok.mp h
    obtain ⟨hname, rfl⟩ := ofExcept_eq_ok.mp hprimitive
    simp only [require, ofExcept_ok_bind] at h
    obtain ⟨operator, _, hfound, h⟩ := seq_eq_ok.mp h
    obtain ⟨hoperator, rfl⟩ := ofExcept_eq_ok.mp hfound
    refine ⟨name, operator, require_eq_ok.mp hname, hoperator, ?_⟩
    split at h
    · rename_i hbare
      obtain ⟨v, _, houtput, h⟩ := seq_eq_ok.mp h
      obtain ⟨hv, rfl⟩ := ofExcept_eq_ok.mp houtput
      cases h
      exact .bare hbare (require_eq_ok.mp hv) rfl rfl
    · rename_i hbare
      obtain ⟨result, _, houtput, h⟩ := seq_eq_ok.mp h
      obtain ⟨hresult, rfl⟩ := ofExcept_eq_ok.mp houtput
      have hbare : last.isBare = false := by simpa using hbare
      split at h
      · rename_i hdefined
        cases h
        exact .computed hbare hresult (if_pos hdefined) rfl rfl
      · rename_i hdefined
        obtain ⟨ty, _, hknown, h⟩ := seq_eq_ok.mp h
        obtain ⟨hty, rfl⟩ := ofExcept_eq_ok.mp hknown
        cases h
        exact .computed hbare hresult ((if_neg hdefined).trans hty) rfl rfl
  · rintro ⟨name, operator, hname, hoperator, hcompounds⟩
    simp only [hname, hoperator, require, ofExcept_ok_bind]
    cases hcompounds with
    | bare hbare hv hlw hns =>
      subst hlw hns
      rw [if_pos hbare, hv]
      rfl
    | @computed result ty hbare hresult hty hlw hns =>
      subst hlw hns
      rw [if_neg (by simp [hbare]), hresult]
      by_cases hdefined : result.isDefined = true
      · rw [if_pos hdefined] at hty
        cases hty
        simp only [ofExcept_ok_bind, if_pos hdefined]
        rfl
      · rw [if_neg hdefined] at hty
        simp only [ofExcept_ok_bind, if_neg hdefined, hty]
        rfl

/-- A compound assignment has a target, a value and an operator. -/
theorem assignment_compound_eq_ok (hop : op.isCompound = true) :
    assignment target op value lw = .ok ns lw' ↔
      ∃ t last name operator, target? target = some t ∧ value.getLast? = some last ∧
        op.primitive? = some name ∧ lw.primitives.operator name = .ok operator ∧
        Compounds lw lw' operator t target value last ns := by
  unfold assignment
  simp only [get_bind_apply]
  cases ht : target? target with
  | none => simp [require, invalid, Action.ofExcept, Bind.bind, EStateM.bind]
  | some t =>
    cases hlast : value.getLast? with
    | none => simp [require, invalid, Action.ofExcept, Bind.bind, EStateM.bind]
    | some last => simp [require, ofExcept_ok_bind, hop, shortAssignment_eq_ok ht hlast]

end Compound

/-- The symbol that `:=` declares for its target. -/
def shortSymbol (lw : Lowering) (t : Operand) (ty : Ty) : Operand :=
  { lw.operand t.name ty with shortDeclared := true }

theorem declares_shortSymbol (lw : Lowering) (t : Operand) (ty : Ty) :
    Declares t (lw.shortSymbol t ty) := ⟨rfl, rfl, rfl⟩

theorem declareTarget_concat {init : List Node} {last : Node} {rest : List Operand}
    (ht : last.outputs = t :: rest) : lw.declareTarget (init ++ [last]) value = .ok ns ↔
      ∃ ty, lw.declaredTy value = .ok ty ∧
        ns = lw.declaration (lw.shortSymbol t ty) :: (init ++ [last.modifyOutput .marked]) := by
  have htarget : target? (init ++ [last]) = some t :=
    target?_eq_some.mpr ⟨init, last, rest, rfl, ht⟩
  unfold declareTarget
  constructor
  · intro h
    obtain ⟨o, ho, h⟩ := bind_eq_ok.mp h
    obtain ⟨ty, hty, h⟩ := bind_eq_ok.mp h
    cases htarget.symm.trans (require_eq_ok.mp ho)
    cases h
    exact ⟨ty, hty, congrArg _ (modifyLast_concat _ init last)⟩
  · rintro ⟨ty, hty, rfl⟩
    refine bind_eq_ok.mpr ⟨t, require_eq_ok.mpr htarget, bind_eq_ok.mpr ⟨ty, hty, ?_⟩⟩
    exact congrArg (fun nodes => Except.ok (_ :: nodes)) (modifyLast_concat _ init last)

/-- Only a declaration of the target's symbol is given a type and an escape. -/
theorem retypeDeclaration_of_forall {front : List Node} {ty : Ty} {escapes : Bool}
    (h : ∀ n ∈ front, ¬ n.DeclaresShort t.name) : retypeDeclaration t ty escapes front = front := by
  cases front with
  | nil => rfl
  | cons n rest =>
    refine congrArg (· :: rest) ?_
    by_cases hdeclaration : n.isDeclaration = true
    swap
    · exact if_neg hdeclaration
    rw [if_pos hdeclaration]
    obtain ⟨operator, inputs, outputs⟩ := n
    cases outputs with
    | nil => rfl
    | cons o os =>
      have hother : ¬ (o.name == t.name && o.shortDeclared) = true := by
        intro hsame
        obtain ⟨hname, hshort⟩ := Bool.and_eq_true_iff.mp hsame
        exact h _ List.mem_cons_self ⟨hdeclaration, o, rfl, beq_iff_eq.mp hname, hshort⟩
      simp only [Node.modifyOutput, List.modifyHead_cons, if_neg hother]

theorem initialises_of_assignFields (h : assignFields base value = .ok ns) :
    List.Forall₂ (Node.Initialises (·.isStructField) base) value ns := by
  induction value generalizing ns with
  | nil =>
    cases h
    exact .nil
  | cons n value ih =>
    unfold assignFields at h
    split at h
    · rename_i hfield
      obtain ⟨output, houtput, h⟩ := bind_eq_ok.mp h
      obtain ⟨rest, hrest, h⟩ := bind_eq_ok.mp h
      cases h
      exact .cons (.part hfield (require_eq_ok.mp houtput) rfl ⟨rfl, rfl, rfl, rfl, rfl⟩) (ih hrest)
    · rename_i hfield
      obtain ⟨rest, hrest, h⟩ := bind_eq_ok.mp h
      cases h
      exact .cons (.kept (by simpa using hfield) rfl) (ih hrest)

theorem initialises_of_assignElements {i : Nat} (h : assignElements base i value = .ok ns) :
    List.Forall₂ (Node.Initialises (·.isArrayElement) base) value ns := by
  induction value generalizing i ns with
  | nil =>
    cases h
    exact .nil
  | cons n value ih =>
    unfold assignElements at h
    split at h
    · rename_i helement
      split at h
      · cases h
      rename_i hsome
      obtain ⟨rest, hrest, h⟩ := bind_eq_ok.mp h
      cases h
      obtain ⟨output, houtput⟩ : ∃ output, n.outputs.head? = some output := by
        rw [← Option.isSome_iff_exists, List.isSome_head?]
        simpa using hsome
      exact .cons (.part helement houtput rfl ⟨rfl, rfl, rfl, rfl, rfl⟩) (ih hrest)
    · rename_i helement
      obtain ⟨rest, hrest, h⟩ := bind_eq_ok.mp h
      cases h
      exact .cons (.kept (by simpa using helement) rfl) (ih hrest)

/-- What becomes of the nodes of a value that is assigned to `t`. -/
inductive Carries (lw : Lowering) (op : AssignOp) (t : Operand) (value ns : List Node) : Prop where
  /-- The last node writes the target instead of what it wrote. -/
  | retargeted {earlier : List Node} {last n : Node} {o : Operand} (hop : op.isCompound = false)
      (hvalue : value = earlier ++ [last]) (hns : ns = earlier ++ [n])
      (hcomputes : lw.Computes last n) (hn : n = { last with
        operator := n.operator, inputs := n.inputs, outputs := n.outputs })
      (ho : n.outputs.head? = some o) (hwrites : SameSymbol t o)
  /-- The field initialisers write the fields of the target. -/
  | fields {last : Node} {base : Operand} (hop : op.isCompound = false)
      (hlast : value.getLast? = some last) (hkind : last.isStructField = true)
      (hbase : SameSymbol t base)
      (hns : List.Forall₂ (Node.Initialises (·.isStructField) base) value ns)
  /-- The field initialisers write the fields of a new object, to which the target points then. -/
  | pointer {fields : List Node} {struct : String} {copy : Operator} {o : Operand}
      (hop : op.isCompound = false) (hcopy : lw.primitives.operator "identity" = .ok copy)
      (hfields : List.Forall₂ (Node.Initialises (·.isStructField) (lw.auxiliary struct)) value
        fields)
      (hns : ns = lw.declaration (lw.auxiliary struct) :: (fields ++
        [{ lw.node copy with inputs := [lw.auxiliary struct], outputs := [o] }]))
      (hwrites : SameSymbol t o) (hreference : o.byReference = true)
  /-- The element initialisers write the elements of the target. -/
  | elements {last : Node} {base : Operand} (hop : op.isCompound = false)
      (hlast : value.getLast? = some last) (hkind : last.isArrayElement = true)
      (hbase : SameSymbol t base)
      (hns : List.Forall₂ (Node.Initialises (·.isArrayElement) base) value ns)
  /-- The operand that the last node is goes into the operator. -/
  | operand {earlier : List Node} {last : Node} {v : Operand} {name : String} {operator : Operator}
      (hname : op.primitive? = some name) (hoperator : lw.primitives.operator name = .ok operator)
      (hvalue : value = earlier ++ [last]) (hbare : last.isBare = true)
      (hv : last.outputs.head? = some v) (hns : ns = earlier ++ [lw.application operator t v])
  /-- The last node writes a temporary, which goes into the operator. -/
  | computed {earlier : List Node} {last : Node} {ty : Ty} {name : String} {operator : Operator}
      (hname : op.primitive? = some name) (hoperator : lw.primitives.operator name = .ok operator)
      (hvalue : value = earlier ++ [last]) (hbare : last.isBare = false)
      (hns : ns = lw.declaration (lw.temporary ty) :: (earlier ++
        [{ last with outputs := [lw.temporary ty] }, lw.application operator t (lw.temporary ty)]))

/-- What lowering puts ahead of the target: `:=` alone declares a symbol for it. -/
inductive DeclaresAhead (lw : Lowering) (op : AssignOp) (t : Operand) : List Node → Prop where
  | declared {symbol : Operand} (hop : op = .define) (hsymbol : Declares t symbol) :
      DeclaresAhead lw op t [lw.declaration symbol]
  | nothing (hop : op ≠ .define) : DeclaresAhead lw op t []

/-- The last node writes the target, or goes on from there. -/
def EndsIn (t : Operand) (ns : List Node) : Prop :=
  ∃ n o, ns.getLast? = some n ∧ n.outputs.head? = some o ∧ o.name = t.name ∧ t.chain <+: o.chain

theorem EndsIn.append {t : Operand} {front rest : List Node} (h : EndsIn t rest) :
    EndsIn t (front ++ rest) := by
  obtain ⟨n, o, hn, ho⟩ := h
  exact ⟨n, o, by rw [List.getLast?_append, hn]; rfl, ho⟩

theorem endsIn_concat {n : Node} {o : Operand} {earlier : List Node} (ho : n.outputs.head? = some o)
    (hsame : SameSymbol t o) : EndsIn t (earlier ++ [n]) :=
  ⟨n, o, List.getLast?_concat, ho, hsame.name_eq, hsame.chain_eq ▸ List.prefix_rfl⟩

theorem endsIn_of_initialises {kind : Node → Bool} {last : Node}
    (hlast : value.getLast? = some last) (hkind : kind last = true) (hbase : SameSymbol t base)
    (h : List.Forall₂ (Node.Initialises kind base) value ns) : EndsIn t ns := by
  obtain ⟨earlier, rfl⟩ := List.getLast?_eq_some_iff.mp hlast
  obtain ⟨front, back, rfl, -, hback⟩ := exists_of_forall₂_append h
  obtain ⟨n, rfl, hn⟩ := exists_of_forall₂_singleton hback
  cases hn with
  | kept hnot => cases hkind.symm.trans hnot
  | @part output p access _ houtput hn hpart =>
    obtain ⟨rest, hrest⟩ := List.head?_eq_some_iff.mp houtput
    refine ⟨n, p, List.getLast?_concat, ?_, hpart.name_eq.trans hbase.name_eq, ?_⟩
    · rw [hn, Node.modifyOutput, hrest]
      rfl
    · rw [hpart.chain_eq, hbase.chain_eq]
      exact List.prefix_append _ _

theorem Carries.endsIn (h : Carries lw op t value ns) : EndsIn t ns := by
  cases h with
  | retargeted _ _ hns _ _ ho hwrites => exact hns ▸ endsIn_concat ho hwrites
  | fields _ hlast hkind hbase hns => exact endsIn_of_initialises hlast hkind hbase hns
  | pointer _ _ _ hns hwrites =>
    rw [hns, ← List.cons_append]
    exact endsIn_concat rfl hwrites
  | elements _ hlast hkind hbase hns => exact endsIn_of_initialises hlast hkind hbase hns
  | operand _ _ _ _ _ hns => exact hns ▸ endsIn_concat rfl ⟨rfl, rfl, rfl⟩
  | computed _ _ _ _ hns =>
    rw [hns, List.append_cons, ← List.cons_append]
    exact endsIn_concat rfl ⟨rfl, rfl, rfl⟩

theorem node_of_retargetNode {copy : Operator} {last : Node} {r : Retarget}
    (h : lw.retargetNode copy last = .ok r) :
    r.node = { last with operator := r.node.operator, inputs := r.node.inputs } := by
  unfold retargetNode at h
  split at h
  · obtain ⟨signature, -, h⟩ := bind_eq_ok.mp h
    by_cases hmany : 1 < signature.outputs.length
    · rw [if_pos hmany] at h
      cases h
    rw [if_neg hmany] at h
    obtain ⟨first, -, h⟩ := bind_eq_ok.mp h
    split at h
    · cases h
      rfl
    · obtain ⟨ty, -, h⟩ := bind_eq_ok.mp h
      cases h
      rfl
  · obtain ⟨e, -, h⟩ := bind_eq_ok.mp h
    obtain ⟨ty, -, h⟩ := bind_eq_ok.mp h
    cases h
    rfl

theorem carries_of_structLiteralAssignment {last : Node} (hop : op.isCompound = false)
    (hbase : target? target = some base) (hsame : SameSymbol t base)
    (hlast : value.getLast? = some last) (hkind : last.isStructField = true)
    (h : structLiteralAssignment target value lw = .ok ns lw') : Carries lw op t value ns := by
  simp only [structLiteralAssignment, get_bind_apply, hbase, hlast, require, ofExcept_ok_bind,
    Option.bind_some] at h
  obtain ⟨output, _, houtput, h⟩ := seq_eq_ok.mp h
  obtain ⟨-, rfl⟩ := ofExcept_eq_ok.mp houtput
  split at h
  · obtain ⟨struct, _, hstruct, h⟩ := seq_eq_ok.mp h
    obtain ⟨-, rfl⟩ := ofExcept_eq_ok.mp hstruct
    obtain ⟨name, _, hfresh, h⟩ := seq_eq_ok.mp h
    cases hfresh
    obtain ⟨fields, _, hassigned, h⟩ := seq_eq_ok.mp h
    obtain ⟨hfields, rfl⟩ := ofExcept_eq_ok.mp hassigned
    obtain ⟨copy, _, hfound, h⟩ := seq_eq_ok.mp h
    obtain ⟨hcopy, rfl⟩ := ofExcept_eq_ok.mp hfound
    cases h
    exact .pointer hop hcopy (initialises_of_assignFields hfields) rfl
      ⟨hsame.name_eq, hsame.chain_eq, hsame.storage_eq⟩ rfl
  · obtain ⟨hfields, -⟩ := ofExcept_eq_ok.mp h
    exact .fields hop hlast hkind hsame (initialises_of_assignFields hfields)

theorem carries_of_assigns {init : List Node} {node last : Node} {rest : List Operand}
    (hop : op.isCompound = false) (hnode : node.outputs = base :: rest)
    (hsame : SameSymbol t base) (hlast : value.getLast? = some last)
    (h : Assigns lw lw' (init ++ [node]) value last ns) : ∃ front rest,
      ns = front ++ rest ∧ Carries lw op t value rest ∧
        (front = init ∨ ∃ ty escapes, front = retypeDeclaration base ty escapes init) := by
  have htarget : target? (init ++ [node]) = some base :=
    target?_eq_some.mpr ⟨init, node, rest, rfl, hnode⟩
  cases h with
  | struct hkind hfields hns =>
    rw [List.dropLast_concat] at hns
    exact ⟨init, _, hns,
      carries_of_structLiteralAssignment hop htarget hsame hlast hkind hfields, .inl rfl⟩
  | array _ hkind helements _ hns =>
    rw [List.dropLast_concat] at hns
    simp only [arrayLiteralAssignment, htarget, require] at helements
    exact ⟨init, _, hns, .elements hop hlast hkind hsame (initialises_of_assignElements helements),
      .inl rfl⟩
  | other _ _ hns _ =>
    obtain ⟨copy, last', r, node', o, rest', hcopy, hlast', hr, hnode', ho, rfl⟩ :=
      retarget_eq_ok.mp hns
    cases hlast.symm.trans hlast'
    rw [List.getLast?_concat] at hnode'
    cases hnode'
    cases hnode.symm.trans ho
    obtain ⟨earlier, rfl⟩ := List.getLast?_eq_some_iff.mp hlast
    refine ⟨if base.shortDeclared then retypeDeclaration base r.ty r.escapes init else init,
      earlier ++ [r.assigns base rest], ?_, ?_, ?_⟩
    · rw [List.dropLast_concat, List.dropLast_concat, List.append_assoc]
    · refine .retargeted hop rfl rfl (computes_of_retargetNode hcopy hr) ?_ rfl
        ⟨hsame.name_eq, hsame.chain_eq, hsame.storage_eq⟩
      unfold Retarget.assigns
      rw [node_of_retargetNode hr]
    · split
      · exact .inr ⟨_, _, rfl⟩
      · exact .inl rfl

theorem carries_of_compounds {name : String} {operator : Operator} {last : Node}
    (hname : op.primitive? = some name) (hoperator : lw.primitives.operator name = .ok operator)
    (hlast : value.getLast? = some last)
    (h : Compounds lw lw' operator t target value last ns) :
    ∃ rest, ns = target.dropLast ++ rest ∧ Carries lw op t value rest := by
  obtain ⟨earlier, rfl⟩ := List.getLast?_eq_some_iff.mp hlast
  cases h with
  | bare hbare hv _ hns =>
    rw [List.append_assoc, List.dropLast_concat] at hns
    exact ⟨_, hns, .operand hname hoperator rfl hbare hv rfl⟩
  | computed hbare _ _ _ hns =>
    rw [List.append_assoc, List.append_assoc, List.dropLast_concat] at hns
    exact ⟨_, hns, .computed hname hoperator rfl hbare rfl⟩

theorem carries_of_assign {init : List Node} {node : Node} {outputs : List Operand}
    (hnode : node.outputs = t :: outputs) (hfirst : ∀ n ∈ init, ¬ n.DeclaresShort t.name)
    (h : assignment (init ++ [node]) .assign value lw = .ok ns lw') :
    ∃ rest, ns = init ++ rest ∧ Carries lw .assign t value rest := by
  obtain ⟨o, last, ho, hlast, hassigns⟩ := assignment_assign_eq_ok.mp h
  have hplain : AssignOp.assign.isCompound = false := rfl
  obtain ⟨front, rest, rfl, hrest, rfl | ⟨ty, escapes, rfl⟩⟩ :=
    carries_of_assigns hplain hnode ⟨rfl, rfl, rfl⟩ hlast hassigns
  · exact ⟨rest, rfl, hrest⟩
  · exact ⟨rest, by rw [retypeDeclaration_of_forall hfirst], hrest⟩

theorem carries_of_define {init : List Node} {node : Node} {outputs : List Operand}
    (hnode : node.outputs = t :: outputs)
    (h : assignment (init ++ [node]) .define value lw = .ok ns lw') :
    ∃ symbol rest, ns = lw.declaration symbol :: init ++ rest ∧ Declares t symbol ∧
      Carries lw .define t value rest := by
  obtain ⟨target', last, htarget', hlast, hassigns⟩ := assignment_define_eq_ok.mp h
  obtain ⟨ty, -, rfl⟩ := (declareTarget_concat hnode).mp htarget'
  have hmarked : (node.modifyOutput .marked).outputs = t.marked :: outputs := by
    rw [Node.modifyOutput, hnode]
    rfl
  rw [← List.cons_append] at hassigns
  have hplain : AssignOp.define.isCompound = false := rfl
  have hsame : SameSymbol t t.marked := ⟨rfl, rfl, rfl⟩
  obtain ⟨front, rest, rfl, hrest, rfl | ⟨ty', escapes, rfl⟩⟩ :=
    carries_of_assigns hplain hmarked hsame hlast hassigns
  · exact ⟨_, rest, rfl, declares_shortSymbol lw t ty, hrest⟩
  · obtain ⟨symbol, hretyped, hsymbol⟩ :=
      (declares_shortSymbol lw t ty).retypeDeclaration lw t.marked ty' escapes
    refine ⟨symbol, rest, ?_, hsymbol, hrest⟩
    exact congrArg (· ++ init ++ rest) hretyped

/-- A lowered assignment ends in its target, and carries the nodes of the target and of the value in
their order. -/
theorem assignment_carries (h : assignment target op value lw = .ok ns lw')
    (ht : target? target = some t) (hfirst : ∀ n ∈ target.dropLast, ¬ n.DeclaresShort t.name) :
    EndsIn t ns ∧ ∃ declared rest, ns = declared ++ target.dropLast ++ rest ∧
      DeclaresAhead lw op t declared ∧ Carries lw op t value rest := by
  suffices hcarries : ∃ declared rest, ns = declared ++ target.dropLast ++ rest ∧
      DeclaresAhead lw op t declared ∧ Carries lw op t value rest by
    obtain ⟨declared, rest, rfl, hdeclared, hrest⟩ := hcarries
    exact ⟨hrest.endsIn.append, declared, rest, rfl, hdeclared, hrest⟩
  obtain ⟨init, node, outputs, rfl, hnode⟩ := target?_eq_some.mp ht
  rw [List.dropLast_concat] at hfirst ⊢
  by_cases hcompound : op.isCompound = true
  · obtain ⟨t', last, name, operator, ht', hlast, hname, hoperator, hcompounds⟩ :=
      (assignment_compound_eq_ok hcompound).mp h
    cases ht.symm.trans ht'
    obtain ⟨rest, hns, hrest⟩ := carries_of_compounds hname hoperator hlast hcompounds
    rw [List.dropLast_concat] at hns
    refine ⟨[], rest, hns, .nothing ?_, hrest⟩
    rintro rfl
    cases hcompound
  cases op with
  | assign =>
    obtain ⟨rest, rfl, hrest⟩ := carries_of_assign hnode hfirst h
    exact ⟨[], rest, rfl, .nothing nofun, hrest⟩
  | define =>
    obtain ⟨symbol, rest, rfl, hsymbol, hrest⟩ := carries_of_define hnode h
    exact ⟨[lw.declaration symbol], rest, rfl, .declared rfl hsymbol, hrest⟩
  | _ => exact absurd rfl hcompound

end Lowering

/-- Makes `i` a copy of `j` on the way to the target `p`. -/
def steppingTarget : List Node :=
  [{ inputs := [{ name := "j" }], outputs := [{ name := "i" }] }, .value { name := "p" }]

theorem assignment_carries_steppingTarget : ∃ ns lw',
    Lowering.assignment steppingTarget .define linkValue linkLowering = .ok ns lw' ∧
      Lowering.EndsIn { name := "p" } ns ∧ ∃ declared rest,
        ns = declared ++ steppingTarget.dropLast ++ rest ∧
        linkLowering.DeclaresAhead .define { name := "p" } declared ∧
        linkLowering.Carries .define { name := "p" } linkValue rest := by
  refine ⟨_, _, rfl, Lowering.assignment_carries rfl rfl ?_⟩
  rintro n hn ⟨hdeclaration, -⟩
  cases List.mem_singleton.mp hn
  cases hdeclaration

end FlatMachine
