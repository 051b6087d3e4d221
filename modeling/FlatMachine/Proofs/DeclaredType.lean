import FlatMachine.Proofs.Acceptance
import FlatMachine.Proofs.CompoundAssignment

/-!
# The type that a short declaration gives

`x := value` is lowered before the layout knows any type, so lowering reads the type of the value
off the value itself. It looks at the operand or operator that comes last, and does not see that an
operand is passed by reference, nor that the elements of an array literal are computed from operands
of another type. The layout accepts the lowered nodes if and only if the type that was read is the
one that the value has.
-/

namespace FlatMachine

open FlatMachine.Action

/-- The type of an input that holds a value of this type. -/
def Operand.passed (o : Operand) (ty : Ty) : Ty := if o.byReference then .pointer ty else ty

namespace FrameLayout

variable {l : FrameLayout} {lw : Lowering} {n last target : Node} {value ns : List Node}
  {o o' v t base output : Operand} {ty ty' read elem : Ty} {name struct : String} {p : Prop}
  {declared : List (String × Ty)} {access access' : Access} {code : Nat}

/-- The operand, whose symbol is given with its type, holds a value of this type. -/
structure Holds (l : FrameLayout) (v : Operand) (ty : Ty) : Prop where
  known : v.ty.isDefined = true
  bound : ∃ v', l.bind v = .ok v' ∧ v'.valueTy l.structs = .ok ty

/-- The type of what the first input holds, if there is one. -/
inductive FirstTy (l : FrameLayout) : List Operand → Ty → Prop where
  | none : FirstTy l [] .undefined
  | first {v : Operand} {rest : List Operand} {ty : Ty} (hv : l.Holds v ty) :
      FirstTy l (v :: rest) ty

/-- The element initialisers yield values of one type. -/
def YieldsElements (l : FrameLayout) (value : List Node) (elem : Ty) : Prop :=
  ∀ n ∈ value, n.isArrayElement = true → ∃ o, n.outputs = [o] ∧ l.Yields n elem

/-- The field initialisers yield what their fields hold. -/
def YieldsFields (l : FrameLayout) (value : List Node) (struct : String) : Prop :=
  ∀ n ∈ value, n.isStructField = true → ∃ o field, n.outputs = [o] ∧
    l.structs.field struct o.name = .ok field ∧ l.Yields n field.ty

/-- In the frame the value has the type `ty`, and lowering reads the type `read` off it. -/
inductive Presents (l : FrameLayout) (value : List Node) : (ty read : Ty) → Prop where
  /-- An operand, by value or by reference. -/
  | operand {earlier : List Node} {last : Node} {v : Operand} {ty : Ty}
      (hvalue : value = earlier ++ [last]) (hop : last.operator = none)
      (hfield : last.isStructField = false) (helement : last.isArrayElement = false)
      (hinputs : last.isMethodCall = true → last.inputs = []) (houtputs : last.outputs = [v])
      (hv : l.Holds v ty) : Presents l value (v.passed ty) ty
  /-- The result of an operator that fixes its type. -/
  | fixed {earlier : List Node} {last : Node} {op : Operator} {signature : Signature} {r : Param}
      (hvalue : value = earlier ++ [last]) (hlast : last.Applies op)
      (hsignature : op.signature? = some signature) (hresult : signature.outputs = [r])
      (hdefined : r.ty.isDefined = true) (hyields : l.Yields last r.ty) :
      Presents l value r.ty r.ty
  /-- The result of an operator whose result has the type of its first input. -/
  | generic {earlier : List Node} {last : Node} {op : Operator} {signature : Signature} {r : Param}
      {v : Operand} {others : List Operand} {ty : Ty}
      (hvalue : value = earlier ++ [last]) (hlast : last.Applies op)
      (hsignature : op.signature? = some signature) (hresult : signature.outputs = [r])
      (hundefined : r.ty.isDefined = false) (hinputs : last.inputs = v :: others)
      (hv : l.Holds v ty) (hyields : l.Yields last (v.passed ty)) :
      Presents l value (v.passed ty) ty
  /-- A struct literal, whose fields get what they hold. -/
  | struct {last : Node} {output : Operand} {struct : String} (hlast : value.getLast? = some last)
      (hkind : last.isStructField = true) (houtput : last.outputs.head? = some output)
      (hstruct : output.structName = some struct) (hfields : l.YieldsFields value struct) :
      Presents l value (output.literalTy struct) (output.literalTy struct)
  /-- An array literal that says what its type is. -/
  | stated {last : Node} {output : Operand} {elem : Ty} (hlast : value.getLast? = some last)
      (hfield : last.isStructField = false) (hkind : last.isArrayElement = true)
      (houtput : last.outputs.head? = some output) (hdefined : output.ty.isDefined = true)
      (hstep : ∀ i, output.ty.step l.structs (.index (.const i)) = .ok elem)
      (helements : l.YieldsElements value elem) : Presents l value output.ty output.ty
  /-- An array literal of elements of one type. -/
  | array {last : Node} {output : Operand} {elem read : Ty} {length : UInt32}
      (hlast : value.getLast? = some last) (hfield : last.isStructField = false)
      (hkind : last.isArrayElement = true) (houtput : last.outputs.head? = some output)
      (hundefined : output.ty.isDefined = false)
      (hlength : (value.filter (·.isArrayElement)).length = length.toNat)
      (helements : l.YieldsElements value elem) (hread : l.FirstTy last.inputs read) :
      Presents l value (.array elem length) (.array read length)

section Reading

variable (hstructs : lw.structs = l.structs)

include hstructs

theorem Holds.knownTy (h : l.Holds v ty) : lw.knownTy v = .ok ty := by
  obtain ⟨hknown, v', hbind, hty⟩ := h
  obtain ⟨found, hfound, hvalue⟩ := Lowering.exists_knownTy hstructs hbind
  rw [hfound]
  exact (hvalue hknown).symm.trans hty

theorem FirstTy.firstInputTy (h : l.FirstTy n.inputs ty) : lw.firstInputTy n = .ok ty := by
  unfold Lowering.firstInputTy
  cases hinputs : n.inputs with
  | nil =>
    rw [hinputs] at h
    cases h
    rfl
  | cons v others =>
    rw [hinputs] at h
    cases h with
    | first hv => exact hv.knownTy hstructs

/-- Lowering declares the type that it reads off the value. -/
theorem Presents.declaredTy (h : l.Presents value ty read) : lw.declaredTy value = .ok read := by
  cases h with
  | @operand earlier last v ty hvalue hop hfield helement hinputs houtputs hv =>
    rw [hvalue, Lowering.declaredTy_operand hop hfield helement (congrArg List.head? houtputs)]
    exact hv.knownTy hstructs
  | @fixed earlier last op signature r hvalue hlast hsignature hresult hdefined hyields =>
    rw [hvalue, Lowering.declaredTy_applies hlast,
      Lowering.outputTy_eq hlast.operator_eq hsignature hresult, if_pos hdefined]
  | @generic earlier last op signature r v others ty hvalue hlast hsignature hresult hundefined
      hinputs hv hyields =>
    have hfirst : l.FirstTy last.inputs read := hinputs ▸ .first hv
    rw [hvalue, Lowering.declaredTy_applies hlast,
      Lowering.outputTy_eq hlast.operator_eq hsignature hresult, if_neg (by simp [hundefined])]
    exact hfirst.firstInputTy hstructs
  | struct hlast hkind houtput hstruct hfields =>
    exact Lowering.declaredTy_struct hlast houtput hkind hstruct
  | stated hlast hfield hkind houtput hdefined hstep helements =>
    rw [Lowering.declaredTy_array hlast houtput hfield hkind, if_pos hdefined]
  | array hlast hfield hkind houtput hundefined hlength helements hread =>
    rw [Lowering.declaredTy_array hlast houtput hfield hkind, if_neg (by simp [hundefined]),
      hread.firstInputTy hstructs, hlength, UInt32.ofNat_toNat]
    rfl

end Reading

section Accepting

theorem LaidOut.bind_written (h : l.LaidOut declared) (hmem : (name, ty) ∈ declared)
    (ho : o.Names name ty) : ∃ o', l.bind o = .ok o' ∧ o'.valueTy l.structs = .ok ty := by
  obtain ⟨slot, -, -, -, hbind⟩ := h.bind_names hmem ho
  exact ⟨_, hbind, rfl⟩

/-- A part of a declared symbol has the type of the part. -/
theorem LaidOut.bind_part (h : l.LaidOut declared) (hmem : (name, ty) ∈ declared)
    (hbase : base.Names name ty) (ho : o.PartOf base access)
    (hlink : l.linkAccess ty access = .ok access') (hstep : ty.step l.structs access = .ok ty') :
    ∃ o', l.bind o = .ok o' ∧ o'.valueTy l.structs = .ok ty' := by
  have hmem : (o.name, ty) ∈ declared := by rwa [ho.name_eq, hbase.name_eq]
  obtain ⟨slot, -, -, -, hbind⟩ := h.bind_symbol hmem (ho.storage_eq.trans hbase.unassigned)
    (ho.ty_eq ▸ hbase.ty_eq)
  have hstep' : ty.step l.structs access' = .ok ty' := (step_linkAccess hlink).trans hstep
  have hchain : l.linkChain ty o.chain = .ok [access'] := by
    rw [ho.chain_eq, hbase.chain_eq]
    exact bind_eq_ok.mpr ⟨_, hlink, bind_eq_ok.mpr ⟨_, hstep', rfl⟩⟩
  rw [hchain] at hbind
  exact ⟨_, hbind, bind_eq_ok.mpr ⟨_, hstep', rfl⟩⟩

/-- The declaration of a symbol is accepted where its name is declared. -/
theorem LaidOut.acceptsIff_declaration (h : l.LaidOut declared) (hmem : (name, ty) ∈ declared)
    (ho : o.Names name ty) (lw : Lowering) : l.AcceptsIff (lw.declaration o) True := by
  obtain ⟨o', hbind, -⟩ := h.bind_written hmem ho
  exact acceptsIff_of_bind (n := lw.declaration o) rfl (mapM_bind_singleton hbind)
    fun _ _ _ => iff_of_true rfl trivial

/-- The copy of an operand yields what an input has that holds it. -/
theorem Holds.yields (h : l.Holds v ty)
    (hop : n.operator = some (.native code "identity" identity.signature))
    (hinputs : n.inputs = [v]) : l.Yields n (v.passed ty) := by
  obtain ⟨-, v', hbind, hty⟩ := h
  have hmode : v'.byReference = v.byReference := (binds_of_bind hbind).byReference_eq
  have hinput : l.inputTy v' = .ok (v.passed ty) := by
    rw [Operand.passed, ← hmode]
    exact bind_eq_ok.mpr ⟨ty, hty, rfl⟩
  have hbound : n.inputs.mapM l.bind = .ok [v'] := hinputs ▸ mapM_bind_singleton hbind
  have hchecked : l.checkInputs (.native code "identity" identity.signature) 0 none [v'] [.any] =
      .ok (some (v.passed ty)) := bind_eq_ok.mpr ⟨_, hinput, rfl⟩
  exact .result hop rfl rfl hbound rfl hchecked rfl

/-- Of the nodes that a value is lowered to, those that are not its own are accepted if and only if
`p`, and there are some of them. -/
structure Settles (l : FrameLayout) (value ns : List Node) (p : Prop) : Prop where
  nodes : ∀ n ∈ ns, n ∈ value ∨ l.AcceptsIff n p
  writes : ∃ n ∈ ns, l.AcceptsIff n p

theorem settles_concat {earlier : List Node} (h : l.AcceptsIff n p) :
    l.Settles (earlier ++ [last]) (earlier ++ [n]) p := by
  refine ⟨fun m hm => ?_, n, by simp, h⟩
  rcases List.mem_append.mp hm with hm | hm
  · exact .inl (List.mem_append_left _ hm)
  · exact .inr (List.mem_singleton.mp hm ▸ h)

theorem settles_of_directed {kind : Node → Bool} {Part : Operand → Operand → Prop}
    (hlast : value.getLast? = some last) (hkind : kind last = true)
    (h : List.Forall₂ (Node.Directed kind Part) value ns)
    (haccepts : ∀ n ∈ value, kind n = true → ∀ o o', n.outputs = [o] → Part o o' →
      l.AcceptsIff { n with outputs := [o'] } p) : l.Settles value ns p := by
  have hnode : ∀ n ∈ value, ∀ n', Node.Directed kind Part n n' →
      kind n = false ∧ n' = n ∨ l.AcceptsIff n' p := by
    intro n hn n' hdirected
    cases hdirected with
    | kept hnot => exact .inl ⟨hnot, rfl⟩
    | part hkind houtputs hpart => exact .inr (haccepts n hn hkind _ _ houtputs hpart)
  have hall := forall₂_imp_of_mem h hnode
  constructor
  · intro n' hn'
    obtain ⟨n, hn, ⟨-, rfl⟩ | haccepted⟩ := exists_of_forall₂_right hall hn'
    · exact .inl hn
    · exact .inr haccepted
  · obtain ⟨n', hn', ⟨hnot, -⟩ | haccepted⟩ :=
      exists_of_forall₂_right hall.flip (List.mem_of_getLast? hlast)
    · cases hkind.symm.trans hnot
    · exact ⟨n', hn', haccepted⟩

/-- The fields of a declared struct, or of one that a declared pointer leads to. -/
theorem LaidOut.settles_fields (hlaid : l.LaidOut declared) (hmem : (name, ty) ∈ declared)
    (hbase : base.Names name ty) (hty : ty = .struct struct ∨ ty = .pointer (.struct struct))
    (hlast : value.getLast? = some last) (hkind : last.isStructField = true)
    (hfields : l.YieldsFields value struct)
    (h : List.Forall₂ (Node.Directed (·.isStructField)
      fun o p => p.PartOf base (.field { name := o.name })) value ns) :
    l.Settles value ns True := by
  refine settles_of_directed hlast hkind h fun n hn hfield o o' ho hpart => ?_
  obtain ⟨o, field, hsame, hfound, hyields⟩ := hfields n hn hfield
  cases ho.symm.trans hsame
  have hstruct : structOf ty o.name = .ok struct := by
    rcases hty with rfl | rfl <;> rfl
  have hstep : ty.step l.structs (.field { name := o.name }) = .ok field.ty := by
    rw [Ty.step_field hty, hfound]
    rfl
  have hlink : l.linkAccess ty (.field { name := o.name }) =
      .ok (.field { name := o.name, offset := field.offset, ty := field.ty }) :=
    bind_eq_ok.mpr ⟨struct, hstruct, bind_eq_ok.mpr ⟨field, hfound, rfl⟩⟩
  obtain ⟨bound, hbind, hvalue⟩ := hlaid.bind_part hmem hbase hpart hlink hstep
  intro pc length
  rw [hyields.acceptsIff hbind hvalue pc length]
  exact iff_of_true rfl trivial

/-- The elements of a declared array. -/
theorem LaidOut.settles_elements (hlaid : l.LaidOut declared) (hmem : (name, ty) ∈ declared)
    (hbase : base.Names name ty)
    (hstep : ∀ i, ty.step l.structs (.index (.const i)) = .ok read)
    (hlast : value.getLast? = some last) (hkind : last.isArrayElement = true)
    (helements : l.YieldsElements value elem)
    (h : List.Forall₂ (Node.Directed (·.isArrayElement)
      fun _ p => ∃ i, p.PartOf base (.index (.const i))) value ns) :
    l.Settles value ns (read = elem) := by
  refine settles_of_directed hlast hkind h fun n hn helement o o' ho hpart => ?_
  obtain ⟨o, -, hyields⟩ := helements n hn helement
  obtain ⟨i, hpart⟩ := hpart
  obtain ⟨bound, hbind, hvalue⟩ := hlaid.bind_part hmem hbase hpart rfl (hstep i)
  exact hyields.acceptsIff hbind hvalue

/-- The fields of a literal by pointer are those of a new object, and the pointer is then copied. -/
theorem LaidOut.settles_pointer {fields : List Node} (hlaid : l.LaidOut declared)
    (hmem : (name, .pointer (.struct struct)) ∈ declared)
    (hauxMem : ((lw.auxiliary struct).name, .pointer (.struct struct)) ∈ declared)
    (ho : o.Names name (.pointer (.struct struct))) (hlast : value.getLast? = some last)
    (hkind : last.isStructField = true) (hfields : l.YieldsFields value struct)
    (h : List.Forall₂ (Node.Directed (·.isStructField)
      fun o p => p.PartOf (lw.auxiliary struct) (.field { name := o.name })) value fields) :
    l.Settles value (lw.declaration (lw.auxiliary struct) :: (fields ++
      [{ lw.node (some (.native code "identity" identity.signature)) with
        inputs := [lw.auxiliary struct], outputs := [o] }])) True := by
  let aux := lw.auxiliary struct
  let copied : Node := { lw.node (some (.native code "identity" identity.signature)) with
    inputs := [aux] }
  have haux : aux.Names aux.name (.pointer (.struct struct)) := ⟨rfl, rfl, rfl, fun _ => rfl⟩
  have hdeclaration := hlaid.acceptsIff_declaration hauxMem haux lw
  have hsettles := hlaid.settles_fields hauxMem haux (.inr rfl) hlast hkind hfields h
  have hholds : l.Holds aux (.pointer (.struct struct)) := ⟨rfl, hlaid.bind_written hauxMem haux⟩
  have hyields : l.Yields copied (.pointer (.struct struct)) := hholds.yields rfl rfl
  obtain ⟨o', hbind, hty⟩ := hlaid.bind_written hmem ho
  have hcopied := (hyields.acceptsIff hbind hty).congr (iff_true_intro rfl)
  refine ⟨fun n hn => ?_, _, List.mem_cons_self, hdeclaration⟩
  rcases List.mem_cons.mp hn with rfl | hn
  · exact .inr hdeclaration
  rcases List.mem_append.mp hn with hn | hn
  · exact hsettles.nodes n hn
  · exact .inr (List.mem_singleton.mp hn ▸ hcopied)

end Accepting

/-- The short declaration of the value is lowered to the declaration of the name with the type
`read`, and to nodes that give it the value. A frame that has them all declared accepts them if and
only if `p`. -/
def Defines (l : FrameLayout) (lw : Lowering) (target : Node) (value : List Node) (name : String)
    (read : Ty) (p : Prop) : Prop :=
  ∃ symbol ns lw', symbol.ty = read ∧ symbol.Names name read ∧
    Lowering.assignment [target] .define value lw = .ok (lw.declaration symbol :: ns) lw' ∧
    ∀ declared, l.LaidOut declared → (name, read) ∈ declared →
      (∀ n ∈ ns, ∀ entry ∈ declarations n, entry ∈ declared) → l.Settles value ns p

section Define

variable {earlier : List Node} {copy : Operator} {op : Operator} {signature : Signature} {r : Param}
  (ht : target.outputs = [t]) (hname : t.Names name read)

include ht hname

theorem defines_operand
    (hcopy : lw.primitives.operator "identity" = .ok (.native code "identity" identity.signature))
    (hstructs : lw.structs = l.structs) (hop : last.operator = none)
    (hfield : last.isStructField = false) (helement : last.isArrayElement = false)
    (hinputs : last.isMethodCall = true → last.inputs = []) (houtputs : last.outputs = [v])
    (hv : l.Holds v read) :
    l.Defines lw target (earlier ++ [last]) name read (read = v.passed read) := by
  let copied : Node := { last with
    operator := some (.native code "identity" identity.signature), inputs := [v] }
  have hknown := hv.knownTy hstructs
  have hcopied :
      (if last.isMethodCall then last.outputs ++ last.inputs else last.outputs) = [v] := by
    split
    · rw [houtputs, hinputs ‹_›]
      rfl
    · exact houtputs
  have hr : lw.retargetNode (.native code "identity" identity.signature) last =
      .ok ⟨copied, read, v.byReference, v.escapes⟩ := by
    have hhead : last.outputs.head? = some v := congrArg List.head? houtputs
    unfold Lowering.retargetNode
    rw [hop]
    dsimp only
    rw [hcopied, hhead]
    change (lw.knownTy v >>= _) = _
    rw [hknown]
    rfl
  have hdeclared : lw.declaredTy (earlier ++ [last]) = .ok read := by
    rwa [Lowering.declaredTy_operand hop hfield helement (congrArg List.head? houtputs)]
  obtain ⟨symbol, written, hsymbolTy, hsymbol, hwritten, hassigns⟩ :=
    Lowering.assignment_define_retarget hcopy hfield helement ht hname hdeclared hr fun _ => rfl
  refine ⟨symbol, _, _, hsymbolTy, hsymbol, hassigns, fun declared hlaid hmem _ => ?_⟩
  obtain ⟨o', hbind, hty⟩ := hlaid.bind_written hmem hwritten
  have hyields : l.Yields copied (v.passed read) := hv.yields rfl rfl
  exact settles_concat (hyields.acceptsIff hbind hty)

theorem defines_applies (hcopy : lw.primitives.operator "identity" = .ok copy)
    (hlast : last.Applies op) (hsignature : op.signature? = some signature)
    (hresult : signature.outputs = [r])
    (hdeclared : lw.declaredTy (earlier ++ [last]) = .ok read) (hyields : l.Yields last ty) :
    l.Defines lw target (earlier ++ [last]) name read (read = ty) := by
  rw [Lowering.declaredTy_applies hlast] at hdeclared
  obtain ⟨symbol, written, hsymbolTy, hsymbol, hwritten, hassigns⟩ :=
    Lowering.assignment_define_applies hcopy hlast hsignature hresult hdeclared ht hname earlier
  refine ⟨symbol, _, _, hsymbolTy, hsymbol, hassigns, fun declared hlaid hmem _ => ?_⟩
  obtain ⟨o', hbind, hty⟩ := hlaid.bind_written hmem hwritten
  exact settles_concat (hyields.acceptsIff hbind hty)

variable (hdeclared : lw.declaredTy value = .ok read) (hlast : value.getLast? = some last)

include hdeclared hlast

theorem defines_elements (hfield : last.isStructField = false)
    (hkind : last.isArrayElement = true)
    (hstep : ∀ i, read.step l.structs (.index (.const i)) = .ok ty)
    (helements : l.YieldsElements value elem) :
    l.Defines lw target value name read (ty = elem) := by
  obtain ⟨ns, hns, hdirected⟩ := Lowering.exists_assignElements t.marked 0
    fun n hn hkind => (helements n hn hkind).imp fun _ h => h.1
  refine ⟨lw.shortSymbol t read, ns, lw, rfl, hname.shortSymbol lw,
    Lowering.assignment_define_array ht hdeclared hlast hfield hkind hns,
    fun declared hlaid hmem _ => ?_⟩
  exact hlaid.settles_elements hmem hname.marked hstep hlast hkind helements hdirected

theorem defines_struct
    (hcopy : lw.primitives.operator "identity" = .ok (.native code "identity" identity.signature))
    (hkind : last.isStructField = true) (houtput : last.outputs.head? = some output)
    (hstruct : output.structName = some struct) (hread : read = output.literalTy struct)
    (hfields : l.YieldsFields value struct) :
    l.Defines lw target value name read True := by
  have houtputs : ∀ n ∈ value, n.isStructField = true → ∃ o, n.outputs = [o] := by
    intro n hn hkind
    obtain ⟨o, -, ho, -⟩ := hfields n hn hkind
    exact ⟨o, ho⟩
  have htarget := Lowering.target?_declaring ht lw read
  by_cases hliteral : output.literalPointer = true
  · rw [Operand.literalTy, if_pos hliteral] at hread
    obtain ⟨fields, hassigned, hdirected⟩ :=
      Lowering.exists_assignFields (lw.auxiliary struct) houtputs
    have hwritten := Lowering.structLiteralAssignment_pointer htarget hlast houtput hliteral hstruct
      hassigned hcopy
    refine ⟨lw.shortSymbol t read, _, _, rfl, hname.shortSymbol lw,
      Lowering.assignment_define_struct ht hdeclared hlast hkind hwritten,
      fun declared hlaid hmem hrest => ?_⟩
    subst hread
    have haux : (lw.auxiliary struct).Names _ (.pointer (.struct struct)) :=
      ⟨rfl, rfl, rfl, fun _ => rfl⟩
    have hauxMem := hrest _ List.mem_cons_self ((lw.auxiliary struct).name, _)
      (haux.declarations rfl lw ▸ List.mem_singleton.mpr rfl)
    exact hlaid.settles_pointer hmem hauxMem hname.marked.byReference hlast hkind hfields hdirected
  · rw [Operand.literalTy, if_neg hliteral] at hread
    obtain ⟨fields, hassigned, hdirected⟩ := Lowering.exists_assignFields t.marked houtputs
    have hwritten := @Lowering.structLiteralAssignment_value lw _ _ _ _ _ _ htarget hlast houtput
      (by simpa using hliteral) hassigned
    refine ⟨lw.shortSymbol t read, _, _, rfl, hname.shortSymbol lw,
      Lowering.assignment_define_struct ht hdeclared hlast hkind hwritten,
      fun declared hlaid hmem _ => ?_⟩
    exact hlaid.settles_fields hmem hname.marked (.inl hread) hlast hkind hfields hdirected

end Define

/-- A short declaration gives its target the type that is read off the value. The nodes that give it
the value are accepted if and only if that is the type of the value. -/
theorem Presents.defines (h : l.Presents value ty read) (hstructs : lw.structs = l.structs)
    (hcopy : lw.primitives.operator "identity" = .ok (.native code "identity" identity.signature))
    (ht : target.outputs = [t]) (hname : t.Names name read) :
    l.Defines lw target value name read (read = ty) := by
  have hdeclared := h.declaredTy hstructs
  cases h with
  | operand hvalue hop hfield helement hinputs houtputs hv =>
    subst hvalue
    exact defines_operand ht hname hcopy hstructs hop hfield helement hinputs houtputs hv
  | fixed hvalue hlast hsignature hresult _ hyields =>
    subst hvalue
    exact defines_applies ht hname hcopy hlast hsignature hresult hdeclared hyields
  | generic hvalue hlast hsignature hresult _ _ _ hyields =>
    subst hvalue
    exact defines_applies ht hname hcopy hlast hsignature hresult hdeclared hyields
  | struct hlast hkind houtput hstruct hfields =>
    rw [eq_self_iff_true]
    exact defines_struct ht hname hdeclared hlast hcopy hkind houtput hstruct rfl hfields
  | stated hlast hfield hkind houtput hdefined hstep helements =>
    have hsettled := defines_elements ht hname hdeclared hlast hfield hkind hstep helements
    rwa [eq_self_iff_true] at hsettled ⊢
  | array hlast hfield hkind houtput hundefined hlength helements hread =>
    rw [Ty.array.injEq, and_iff_left rfl]
    exact defines_elements ht hname hdeclared hlast hfield hkind (fun _ => rfl) helements

end FrameLayout

section Functions

variable {l : FrameLayout} {lw : Lowering} {target : Node} {t : Operand} {value ns : List Node}
  {ty read : Ty} {name : String} {code : Nat} {fd : FunctionDraft} {front back : List Node}
  {symbol : Operand} {p : Prop}

/-- A function with a short declaration in it is laid out in its frame if and only if the nodes of
the declaration settle, and everything else is accepted. -/
theorem FunctionDraft.exists_layout_settles
    (hframe : (fd.enclosing front back (lw.declaration symbol :: ns)).frame l.draft = .ok l)
    (hsymbol : symbol.Names name read) (hmem : (name, read) ∈
      (fd.enclosing front back (lw.declaration symbol :: ns)).declared)
    (h : l.Settles value ns p) :
    (∃ f, (fd.enclosing front back (lw.declaration symbol :: ns)).layout l.draft = .ok f) ↔
      p ∧ (fd.enclosing front back (lw.declaration symbol :: ns)).Accepts l
        (front ++ value ++ back) := by
  have hlaid := (laidOut_of_frame hframe).2
  have hdeclaration := hlaid.acceptsIff_declaration hmem hsymbol lw
  rw [exists_layout_iff hframe]
  constructor
  · intro haccepts
    refine ⟨?_, fun pc n hn _ => haccepts pc n hn (List.mem_of_getElem? hn)⟩
    obtain ⟨n, hn, hiff⟩ := h.writes
    have hbody : n ∈ (fd.enclosing front back (lw.declaration symbol :: ns)).body := by
      simp [enclosing, hn]
    obtain ⟨pc, hpc⟩ := List.getElem?_of_mem hbody
    exact (hiff _ _).mp (haccepts pc n hpc hbody)
  · rintro ⟨hp, hothers⟩ pc n hpc hn
    simp only [enclosing, List.mem_append, List.mem_cons] at hn
    obtain (hn | rfl | hn) | hn := hn
    · exact hothers pc n hpc (by simp [hn])
    · exact (hdeclaration _ _).mpr trivial
    · rcases h.nodes n hn with hn | hiff
      · exact hothers pc n hpc (by simp [hn])
      · exact (hiff _ _).mpr hp
    · exact hothers pc n hpc (by simp [hn])

/-- `x := value` is lowered, and declares `x` with the type that is read off the value. A function
with the lowered nodes, whose names are declared consistently and have their places in a frame, is
laid out if and only if that is the type that the value has in the frame, and its other nodes are
accepted. -/
theorem short_declaration_types
    (hcopy : lw.primitives.operator "identity" = .ok (.native code "identity" identity.signature))
    (hstructs : lw.structs = l.structs) (ht : target.outputs = [t]) (hname : t.Names name read)
    (hvalue : l.Presents value ty read) :
    ∃ symbol ns lw', symbol.Names name read ∧ symbol.ty = read ∧
      Lowering.assignment [target] .define value lw = .ok (lw.declaration symbol :: ns) lw' ∧
      ∀ (fd : FunctionDraft) (front back : List Node),
        (fd.enclosing front back (lw.declaration symbol :: ns)).frame l.draft = .ok l →
        ((∃ f, (fd.enclosing front back (lw.declaration symbol :: ns)).layout l.draft = .ok f) ↔
          read = ty ∧ (fd.enclosing front back (lw.declaration symbol :: ns)).Accepts l
            (front ++ value ++ back)) := by
  obtain ⟨symbol, ns, lw', hty, hsymbol, hassigns, hsettles⟩ :=
    hvalue.defines hstructs hcopy ht hname
  refine ⟨symbol, ns, lw', hsymbol, hty, hassigns, fun fd front back hframe => ?_⟩
  have hbody : ∀ n ∈ lw.declaration symbol :: ns, ∀ entry ∈ FrameLayout.declarations n, entry ∈
      (fd.enclosing front back (lw.declaration symbol :: ns)).declared := by
    intro n hn entry hentry
    refine List.mem_append_right _ (List.mem_append_right _ (List.mem_flatMap.mpr ⟨n, ?_, hentry⟩))
    exact List.mem_append_left _ (List.mem_append_right _ hn)
  have hmem := hbody _ List.mem_cons_self (name, read)
    (hsymbol.declarations hty lw ▸ List.mem_singleton.mpr rfl)
  have hsettled := hsettles _ (FunctionDraft.laidOut_of_frame hframe).2 hmem
    fun n hn => hbody n (List.mem_cons_of_mem _ hn)
  exact FunctionDraft.exists_layout_settles hframe hsymbol hmem hsettled

end Functions

/-- A function of an integer. -/
def tallyDraft : FunctionDraft where
  package := "main"
  name := "tally"
  params := [("y", .i32)]

/-- The parameter, by value or by reference. -/
def tallied (byReference : Bool) : Operand := { name := "y", ty := .i32, byReference }

/-- An element of an array literal, with `y` for its inputs. -/
def tallyElement (op : Option Operator) (count : Nat) : Node :=
  { operator := op, inputs := List.replicate count (tallied false)
    outputs := [{ name := "e" }], isArrayElement := true }

/-- `[2]i32{y, y + y}`. -/
def tallyValue : List Node := [tallyElement none 1, tallyElement (some sumOperator) 2]

/-- The frame of the function with `x := [2]i32{y, y + y}`. -/
def tallyFrame : FrameLayout where
  package := "main"
  draft := {}
  slots := [⟨"x", 4, .array .i32 2⟩, ⟨"y", 0, .i32⟩]
  size := 12

theorem presents_tallyValue : tallyFrame.Presents tallyValue (.array .i32 2) (.array .i32 2) := by
  refine .array rfl rfl rfl rfl rfl rfl ?_ (.first ⟨rfl, _, rfl, rfl⟩)
  intro n hn _
  simp only [tallyValue, List.mem_cons, List.not_mem_nil, or_false] at hn
  rcases hn with rfl | rfl
  · exact ⟨_, rfl, .move rfl rfl rfl rfl⟩
  · exact ⟨_, rfl, .result rfl rfl rfl rfl rfl rfl rfl⟩

/-- What `x := [2]i32{y, y + y}` is lowered to. -/
def tallyBody : List Node :=
  let element (i : Nat) : Operand := { name := "x", chain := [.index (.const i)]
                                       declared := true, shortDeclared := true }
  [sumLowering.declaration (sumLowering.shortSymbol { name := "x" } (.array .i32 2)),
    { tallyElement none 1 with outputs := [element 0] },
    { tallyElement (some sumOperator) 2 with outputs := [element 1] }]

/-- `x := [2]i32{y, y + y}` declares an array of two integers, and is accepted. -/
theorem short_declaration_types_tallyValue : ∃ f, tallyDraft.layoutLowered {} [] []
    (Lowering.assignment [.value { name := "x" }] .define tallyValue) sumLowering = .ok f := by
  obtain ⟨symbol, ns, lw', -, -, hlower, hlayout⟩ := @short_declaration_types tallyFrame sumLowering
    (.value { name := "x" }) { name := "x" } tallyValue _ _ "x" 0 rfl rfl rfl
    ⟨rfl, rfl, rfl, nofun⟩ presents_tallyValue
  have hbody : Lowering.assignment [.value { name := "x" }] .define tallyValue sumLowering =
      .ok tallyBody sumLowering := rfl
  obtain ⟨hns, -⟩ := EStateM.Result.ok.inj (hbody.symm.trans hlower)
  have hlaid := hlayout tallyDraft [] []
  rw [← hns] at hlaid
  -- all nodes write `x` from now on, so none is left as it was
  have hx : ∀ n ∈ tallyBody, n.outputs.map (·.name) = ["x"] := by
    simp [tallyBody, Lowering.declaration, Lowering.shortSymbol, Lowering.operand]
  have he : ∀ n ∈ tallyValue, n.outputs.map (·.name) = ["e"] := by
    simp [tallyValue, tallyElement]
  have hothers : (tallyDraft.enclosing [] [] tallyBody).Accepts tallyFrame
      ([] ++ tallyValue ++ []) := by
    intro pc n hn hvalue
    rw [List.nil_append, List.append_nil] at hvalue
    have hmem : n ∈ tallyBody := by simpa [FunctionDraft.enclosing] using List.mem_of_getElem? hn
    exact absurd ((hx n hmem).symm.trans (he n hvalue)) (by decide)
  obtain ⟨f, hf⟩ := (hlaid rfl).mpr ⟨rfl, hothers⟩
  exact ⟨f, FunctionDraft.layoutLowered_eq_ok.mpr ⟨_, _, hbody, hf⟩⟩

/-- `&y`. -/
def takenValue : List Node := [.value (tallied true)]

/-- `[1]bool{odd(y)}`. -/
def parityValue : List Node :=
  [tallyElement (some (.call ⟨"main", "odd"⟩ (.of [.i32] [.bool]))) 1]

/-- The address of an integer is read as an integer, and an array of truth values that are computed
from integers as one of integers. Neither can be given to a new name. -/
theorem exists_refused_definition :
    tallyFrame.Presents takenValue (.pointer .i32) .i32 ∧
      tallyFrame.Presents parityValue (.array .bool 1) (.array .i32 1) ∧
      ∀ value ∈ [takenValue, parityValue], ∀ f, tallyDraft.layoutLowered {} [] []
        (Lowering.assignment [.value { name := "x" }] .define value) sumLowering ≠ .ok f := by
  have hfirst : tallyFrame.Holds (tallied false) .i32 := ⟨rfl, _, rfl, rfl⟩
  have htaken : tallyFrame.Holds (tallied true) .i32 := ⟨rfl, _, rfl, rfl⟩
  refine ⟨.operand (List.nil_append _).symm rfl rfl rfl (fun _ => rfl) rfl htaken, ?_, ?_⟩
  · refine .array rfl rfl rfl rfl rfl rfl ?_ (.first hfirst)
    intro n hn _
    cases List.mem_singleton.mp hn
    exact ⟨_, rfl, .result rfl rfl rfl rfl rfl rfl rfl⟩
  · intro value hvalue f hf
    have hrefused : ∃ e, tallyDraft.layoutLowered {} [] []
        (Lowering.assignment [.value { name := "x" }] .define value) sumLowering = .error e := by
      simp only [List.mem_cons, List.not_mem_nil, or_false] at hvalue
      rcases hvalue with rfl | rfl
      · exact ⟨_, rfl⟩
      · exact ⟨_, rfl⟩
    obtain ⟨e, he⟩ := hrefused
    cases hf.symm.trans he

end FlatMachine
