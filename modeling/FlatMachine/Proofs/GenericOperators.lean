import FlatMachine.Proofs.Variables

/-!
# Generic operators

`und.<op>` looks at the type of its first input and goes on as the typed operator of that name. So
the two do the same on inputs of a type, except that an error carries the name of the operator that
was asked for.
-/

namespace FlatMachine

open FlatMachine.Action

/-- The same error, but for the operator that it names. -/
inductive Error.Renamed (name name' : String) : Error → Error → Prop where
  | same (e : Error) : Renamed name name' e e
  | typeMismatch (expected got : String) :
      Renamed name name' (.typeMismatch name expected got) (.typeMismatch name' expected got)
  | divisionByZero : Renamed name name' (.divisionByZero name) (.divisionByZero name')
  | invalidArguments (reason : String) :
      Renamed name name' (.invalidArguments name reason) (.invalidArguments name' reason)

/-- The same value, or the same error but for the operator that it names. -/
inductive SameUpToOperator (name name' : String) {α : Type} :
    Except Error α → Except Error α → Prop where
  | ok (x : α) : SameUpToOperator name name' (.ok x) (.ok x)
  | error {e e' : Error} (h : e.Renamed name name' e') :
      SameUpToOperator name name' (.error e) (.error e')

namespace SameUpToOperator

variable {α β : Type} {name name' : String} {r r' : Except Error α} {f g : α → Except Error β}

theorem refl (r : Except Error α) : SameUpToOperator name name' r r := by
  cases r with
  | ok x => exact .ok x
  | error e => exact .error (.same e)

theorem bind (h : SameUpToOperator name name' r r')
    (hf : ∀ x, SameUpToOperator name name' (f x) (g x)) :
    SameUpToOperator name name' (r >>= f) (r' >>= g) := by
  cases h with
  | ok x => exact hf x
  | error h => exact .error h

theorem ite {c : Prop} [Decidable c] {r₁ r₂ : Except Error α}
    (h : SameUpToOperator name name' r r') (h' : SameUpToOperator name name' r₁ r₂) :
    SameUpToOperator name name' (if c then r else r₁) (if c then r' else r₂) := by
  split
  · exact h
  · exact h'

end SameUpToOperator

/-- The sites differ in their operators only. -/
structure Site.Sibling (s s' : Site) : Prop where
  structs_eq : s'.structs = s.structs
  fp_eq : s'.fp = s.fp
  inputs_eq : s'.node.inputs = s.node.inputs
  outputs_eq : s'.node.outputs = s.node.outputs

namespace Site.Sibling

variable {s s' : Site} (h : s.Sibling s')
include h

/-- What the sites do with the place of an input. -/
theorem onPlace {α : Type} {f f' : Operand → Place → Except Error α} (a : Arena) (i : Nat)
    (hf : ∀ o place, SameUpToOperator s.name s'.name (f o place) (f' o place)) :
    SameUpToOperator s.name s'.name
      (s.operand i >>= fun o => o.place s.structs a s.fp >>= f o)
      (s'.operand i >>= fun o => o.place s'.structs a s'.fp >>= f' o) := by
  have hoperand : SameUpToOperator s.name s'.name (s.operand i) (s'.operand i) := by
    unfold Site.operand
    rw [h.inputs_eq]
    cases s.node.inputs[i]? with
    | none => exact .error (.invalidArguments _)
    | some o => exact .ok o
  refine hoperand.bind fun o => ?_
  rw [h.structs_eq, h.fp_eq]
  exact SameUpToOperator.bind (.refl _) fun place => hf o place

theorem input (a : Arena) (i : Nat) :
    SameUpToOperator s.name s'.name (s.input a i) (s'.input a i) := by
  refine h.onPlace a i fun o place => .ite (.refl _) ?_
  split
  · exact .refl _
  · exact .refl _
  · exact .refl _
  · exact .refl _
  · exact .refl _
  · exact .refl _
  · exact .error (.typeMismatch _ _)

theorem int (k : IntKind) (a : Arena) (i : Nat) :
    SameUpToOperator s.name s'.name (s.int k a i) (s'.int k a i) := by
  refine (h.input a i).bind fun v => ?_
  cases v with
  | int l w =>
    by_cases hl : l = k
    · simp only [hl, dite_true]
      exact .refl _
    · simp only [hl, dite_false]
      exact .error (.typeMismatch _ _)
  | _ => exact .error (.typeMismatch _ _)

theorem float (k : FloatKind) (a : Arena) (i : Nat) :
    SameUpToOperator s.name s'.name (s.float k a i) (s'.float k a i) := by
  refine (h.input a i).bind fun v => ?_
  cases v with
  | float l w =>
    by_cases hl : l = k
    · simp only [hl, dite_true]
      exact .refl _
    · simp only [hl, dite_false]
      exact .error (.typeMismatch _ _)
  | _ => exact .error (.typeMismatch _ _)

theorem bool (a : Arena) (i : Nat) :
    SameUpToOperator s.name s'.name (s.bool a i) (s'.bool a i) := by
  refine (h.input a i).bind fun v => ?_
  cases v with
  | bool b => exact .refl _
  | _ => exact .error (.typeMismatch _ _)

omit h in
theorem stage (s s' : Site) (slots : Slots) (i : Nat) (staged : Staged) :
    SameUpToOperator s.name s'.name (s.stage slots i staged) (s'.stage slots i staged) :=
  .ite (.refl _) (.error (.invalidArguments _))

omit h in
theorem stageFrom (s s' : Site) (slots : Slots) (i : Nat) (values : List Value) :
    SameUpToOperator s.name s'.name (s.stageFrom slots i values) (s'.stageFrom slots i values) := by
  induction values generalizing slots i with
  | nil => exact .ok slots
  | cons v rest ih => exact (stage s s' slots i (.value v)).bind fun slots => ih slots (i + 1)

theorem outputs (values : List Value) :
    SameUpToOperator s.name s'.name (s.outputs values) (s'.outputs values) := by
  have hnone : s'.noOutputs = s.noOutputs := by rw [noOutputs, noOutputs, h.outputs_eq]
  rw [Site.outputs, Site.outputs, hnone]
  exact stageFrom s s' s.noOutputs 0 values

theorem prepareAll (a : Arena) (os : List Operand) (slots : Slots) :
    SameUpToOperator s.name s'.name (s.prepareAll a os slots) (s'.prepareAll a os slots) := by
  induction os generalizing slots with
  | nil => cases slots <;> exact .ok []
  | cons o os ih =>
    cases slots with
    | nil => exact .ok []
    | cons slot slots =>
      cases slot with
      | none => exact ih slots
      | some staged =>
        have hprepare : SameUpToOperator s.name s'.name (s.prepare a o staged)
            (s'.prepare a o staged) := by
          unfold prepare
          rw [h.structs_eq, h.fp_eq]
          refine SameUpToOperator.bind (.refl _) fun place => ?_
          refine SameUpToOperator.bind (.refl _) fun pending => ?_
          exact .ite (.refl _) (.error (.typeMismatch _ _))
        exact hprepare.bind fun pending => (ih slots).bind fun rest => .refl _

end Site.Sibling

section Computing

variable {s s' : Site} {op : BinaryOp} {ty : Ty} {run : Compute} {a : Arena}

theorem BinaryOp.sameUpToOperator_onInts (op : BinaryOp) (name name' : String) (k : IntKind)
    (x y : BitVec k.bits) :
    SameUpToOperator name name' (op.onInts name k x y) (op.onInts name' k x y) := by
  have hcount : SameUpToOperator name name' (shiftCount name k y) (shiftCount name' k y) :=
    .ite (.error (.invalidArguments _)) (.refl _)
  cases op with
  | div | mod => exact .ite (.error .divisionByZero) (.refl _)
  | shl | shr => exact hcount.bind fun n => .refl _
  | _ => exact .refl _

/-- A typed operator does the same at sites that differ in their operators only. -/
theorem BinaryOp.sameUpToOperator_typed (h : s.Sibling s') (hrun : op.typed? ty = some run) :
    SameUpToOperator s.name s'.name (run s a) (run s' a) := by
  unfold typed? at hrun
  split at hrun
  · cases hrun
    refine (h.int _ a 0).bind fun x => (h.int _ a 1).bind fun y => ?_
    exact (sameUpToOperator_onInts op _ _ _ x y).bind fun v => h.outputs [v]
  · split at hrun
    · cases hrun
      exact (h.float _ a 0).bind fun x => (h.float _ a 1).bind fun y => h.outputs _
    · cases hrun
  · cases hrun
    exact (h.input a 0).bind fun x => (h.input a 1).bind fun y => h.outputs _
  · cases hrun
    exact (h.input a 0).bind fun x => (h.input a 1).bind fun y => h.outputs _
  · cases hrun
    refine (h.bool a 0).bind fun b => .ite ?_ (h.outputs _)
    exact (h.bool a 1).bind fun value => h.outputs _
  · cases hrun
    refine (h.bool a 0).bind fun b => .ite (h.outputs _) ?_
    exact (h.bool a 1).bind fun value => h.outputs _
  · cases hrun

/-- Wherever the operand leads, it stands for an input of the type. -/
def Operand.IsInput (t : StructTable) (a : Arena) (fp : Nat) (ty : Ty) (o : Operand) : Prop :=
  ∀ place, o.place t a fp = .ok place → (if o.byReference then .pointer place.ty else place.ty) = ty

/-- What the layout takes for an input of a type is one. -/
theorem Operand.Supplies.isInput {t : StructTable} {fp : Nat} {o : Operand}
    (h : o.Supplies t ty) (hfields : t.SizedFields) : o.IsInput t a fp ty := by
  intro place hplace
  rcases h.cases with ⟨hvalue, hty⟩ | ⟨hreference, target, hty, rfl⟩
  · rw [if_neg (by simp [hvalue])]
    exact ((hty.gives_place hfields).value hplace).1
  · rw [if_pos hreference, ((hty.gives_place hfields).value hplace).1]

/-- An input that leads nowhere has no value either. -/
theorem Site.input_eq_error {i : Nat} {e : Error} (h : s.inputTy a i = .error e) :
    s.input a i = .error e := by
  unfold Site.inputTy at h
  unfold Site.input
  cases ho : s.operand i with
  | error e' =>
    rw [ho] at h
    cases h
    rfl
  | ok o =>
    rw [ho] at h
    change (o.place s.structs a s.fp >>= _) = _ at h
    change (o.place s.structs a s.fp >>= _) = _
    cases hplace : o.place s.structs a s.fp with
    | error e' =>
      rw [hplace] at h
      cases h
      rfl
    | ok place =>
      rw [hplace] at h
      cases h

/-- Typed operators read their first input. -/
theorem BinaryOp.typed_eq_error {e : Error} (hrun : op.typed? ty = some run)
    (h : s.inputTy a 0 = .error e) : run s a = .error e := by
  have hinput := Site.input_eq_error h
  unfold typed? at hrun
  split at hrun
  · cases hrun
    simp only [ints, Site.int, hinput]
    rfl
  · split at hrun
    · cases hrun
      simp only [floats, Site.float, hinput]
      rfl
    · cases hrun
  · cases hrun
    simp only [equality, hinput]
    rfl
  · cases hrun
    simp only [equality, hinput]
    rfl
  · cases hrun
    simp only [conjunction, Site.bool, hinput]
    rfl
  · cases hrun
    simp only [disjunction, Site.bool, hinput]
    rfl
  · cases hrun

theorem Site.inputTy_eq_ok {i : Nat} {ty' : Ty}
    (hinputs : ∀ o ∈ s.node.inputs, o.IsInput s.structs a s.fp ty)
    (h : s.inputTy a i = .ok ty') : ty' = ty := by
  obtain ⟨o, ho, h⟩ := bind_eq_ok.mp h
  obtain ⟨place, hplace, h⟩ := bind_eq_ok.mp h
  cases pure_eq_ok.mp h
  refine hinputs o ?_ place hplace
  unfold Site.operand at ho
  split at ho
  · cases ho
    exact List.mem_of_getElem? (by assumption)
  · cases ho

/-- On inputs of a type that has a typed operator, the generic one is that operator. -/
theorem BinaryOp.generic_eq (hrun : op.typed? ty = some run)
    (hinputs : ∀ o ∈ s.node.inputs, o.IsInput s.structs a s.fp ty) : op.generic s a = run s a := by
  unfold generic
  cases hty : s.inputTy a 0 with
  | error e =>
    rw [typed_eq_error hrun hty]
    rfl
  | ok ty' =>
    obtain rfl := Site.inputTy_eq_ok hinputs hty
    simp only [Bind.bind, Except.bind, hrun]

/-- The value of a string is a string. -/
theorem Site.gives_input_str {i : Nat}
    (hinputs : ∀ o ∈ s.node.inputs, o.IsInput s.structs a s.fp .str) :
    Gives (s.input a i) (fun v => ∃ text, v = .str text) (fun _ => True) := by
  cases hty : s.inputTy a i with
  | error e =>
    rw [Site.input_eq_error hty]
    trivial
  | ok ty =>
    obtain rfl := Site.inputTy_eq_ok hinputs hty
    obtain ⟨o, ho, hty⟩ := bind_eq_ok.mp hty
    obtain ⟨⟨offset, ty, size⟩, hplace, hty⟩ := bind_eq_ok.mp hty
    simp only [Site.input, ho, hplace, gives_bind, gives_ok]
    cases hreference : o.byReference with
    | true =>
      rw [hreference] at hty
      cases pure_eq_ok.mp hty
    | false =>
      rw [hreference] at hty
      cases pure_eq_ok.mp hty
      simp only [gives_ite, gives_bind]
      refine ⟨fun h => (Bool.false_ne_true h).elim, fun _ => ?_⟩
      refine gives_of_ok (fun handle _ => ?_) fun _ => trivial
      refine (Arena.dynamic_readObject (.inl rfl) rfl).mono (fun v hv => ?_) fun _ _ => trivial
      have hstr := hv rfl
      cases v <;> cases hstr
      exact ⟨_, rfl⟩

/-- On strings the equality of values is the equality of the texts. -/
theorem BinaryOp.equality_str
    (hinputs : ∀ o ∈ s.node.inputs, o.IsInput s.structs a s.fp .str) :
    equality true s a = (do
      let x ← s.str a 0
      let y ← s.str a 1
      s.outputs [.bool (x == y)]) := by
  have hfirst := Site.gives_input_str (i := 0) hinputs
  have hsecond := Site.gives_input_str (i := 1) hinputs
  unfold equality Site.str
  cases hx : s.input a 0 with
  | error e => rfl
  | ok x =>
    obtain ⟨front, rfl⟩ := hfirst.value hx
    cases hy : s.input a 1 with
    | error e => rfl
    | ok y =>
      obtain ⟨back, rfl⟩ := hsecond.value hy
      change s.outputs [.bool ((front == back) == true)] = s.outputs [.bool (front == back)]
      rw [beq_true]

end Computing

/-- The operator of the library that is made for two inputs of a type. -/
def BinaryOp.typedPrimitive? (op : BinaryOp) (ty : Ty) : Option Primitive :=
  match ty, op with
  | .int k, op => some (op.intPrimitive k)
  | .float k, op => if op.hasFloats then some (op.floatPrimitive k) else none
  | .bool, and => boolPrimitives[0]?
  | .bool, or => boolPrimitives[1]?
  | .bool, compare .eq => boolPrimitives[2]?
  | .bool, compare .uneq => boolPrimitives[3]?
  | .str, compare .eq => stringPrimitives[2]?
  | _, _ => none

section Typed

variable {op : BinaryOp} {ty : Ty} {q : Primitive}

/-- A generic operator is known by its name. -/
theorem BinaryOp.eq_of_genericName {op' : BinaryOp}
    (h : op.genericPrimitive.name = op'.genericPrimitive.name) : op = op' := by
  have hall : ∀ op ∈ all, ∀ op' ∈ all,
      op.genericPrimitive.name = op'.genericPrimitive.name → op = op' := by decide
  exact hall op op.mem_all op' op'.mem_all h

theorem BinaryOp.genericPrimitive_mem_library (op : BinaryOp) : op.genericPrimitive ∈ library :=
  (Primitive.Family.generic op).mem_library

theorem BinaryOp.intPrimitive_mem_library (op : BinaryOp) (k : IntKind) :
    op.intPrimitive k ∈ library :=
  (Primitive.Family.ints op k).mem_library

theorem BinaryOp.floatPrimitive_mem_library (h : op.hasFloats = true) (k : FloatKind) :
    op.floatPrimitive k ∈ library :=
  (Primitive.Family.floats h k).mem_library

/-- The typed operator is in the library under the name of the type and the operator. -/
theorem BinaryOp.typedPrimitive?_eq_some (h : op.typedPrimitive? ty = some q) :
    q ∈ library ∧ q.name = s!"{ty.text}.{op.name}" := by
  have hbool : ∀ p ∈ boolPrimitives, p ∈ library := fun p hp =>
    (Primitive.Family.bool hp).mem_library
  have hstr : ∀ p ∈ stringPrimitives, p ∈ library := fun p hp =>
    (Primitive.Family.string hp).mem_library
  unfold typedPrimitive? at h
  split at h
  · cases h
    exact ⟨op.intPrimitive_mem_library _, rfl⟩
  · split at h
    · rename_i hfloats
      cases h
      exact ⟨floatPrimitive_mem_library hfloats _, rfl⟩
    · cases h
  · exact ⟨hbool q (List.mem_of_getElem? h), by cases h; rfl⟩
  · exact ⟨hbool q (List.mem_of_getElem? h), by cases h; rfl⟩
  · exact ⟨hbool q (List.mem_of_getElem? h), by cases h; rfl⟩
  · exact ⟨hbool q (List.mem_of_getElem? h), by cases h; rfl⟩
  · exact ⟨hstr q (List.mem_of_getElem? h), by cases h; rfl⟩
  · cases h

/-- Arithmetic and order are defined on the types that have a typed operator. -/
theorem BinaryOp.isSome_typedPrimitive? (heq : op ≠ compare .eq) (huneq : op ≠ compare .uneq) :
    (op.typedPrimitive? ty).isSome = (op.typed? ty).isSome := by
  cases ty with
  | int k => rfl
  | float k => cases hfloats : op.hasFloats <;> simp [typedPrimitive?, typed?, hfloats]
  | _ =>
    cases op with
    | compare c => cases c <;> first | rfl | exact absurd rfl heq | exact absurd rfl huneq
    | _ => rfl

theorem BinaryOp.isSome_of_equality (hop : op = compare .eq ∨ op = compare .uneq)
    (hty : ty.isScalar = true ∨ op = compare .eq ∧ ty = .str) :
    (op.typedPrimitive? ty).isSome = true := by
  rcases hty with hscalar | ⟨rfl, rfl⟩
  · rcases hop with rfl | rfl <;> cases ty <;> first | rfl | cases hscalar
  · rfl

/-- The generic operator accepts the types that it knows what to do with. -/
theorem BinaryOp.accepts_of_typed (h : (op.typed? ty).isSome = true) :
    op.genericParam.accepts ty = true := by
  unfold genericParam
  split
  · rfl
  · rfl
  · rename_i heq huneq
    have hscalar : ty ∈ scalarTypes := by
      cases ty with
      | bool => decide
      | int k => cases k <;> decide
      | float k => cases k <;> decide
      | _ =>
        cases op with
        | compare c => cases c <;> first | exact absurd rfl heq | exact absurd rfl huneq | cases h
        | _ => cases h
    have hlisted : (scalarTypes.filter fun ty => (op.typed? ty).isSome).contains ty = true :=
      List.contains_iff_mem.mpr (List.mem_filter.mpr ⟨hscalar, h⟩)
    simp only [Param.accepts, Param.any, Param.of, Ty.isDefined, Bool.false_eq_true, if_false,
      hlisted, Bool.or_true]

/-- The types that the signature admits for the inputs are those that have a typed operator. -/
theorem BinaryOp.admits_iff (heq : op ≠ compare .eq) (huneq : op ≠ compare .uneq) :
    (∃ result, op.genericPrimitive.signature.Admits [ty, ty] [result]) ↔
      (op.typed? ty).isSome = true := by
  constructor
  · rintro ⟨result, hins, -⟩
    obtain ⟨_, _, ⟨haccepts, -⟩, -, heqs⟩ := List.forall₂_cons_left_iff.mp hins
    cases heqs
    refine (Primitive.genericParam_accepts haccepts ?_).2
    rintro (hname | hname)
    · exact (heq (eq_of_genericName hname)).elim
    · exact (huneq (eq_of_genericName hname)).elim
  · intro h
    have hfirst := accepts_of_typed h
    refine ⟨op.resultTy ty, .cons ⟨hfirst, fun _ => rfl⟩ (.cons ⟨rfl, fun _ => rfl⟩ .nil), ?_⟩
    refine .cons (fun expected hexpected => ?_) .nil
    unfold resultTy
    by_cases hcomparison : op.isComparison = true
    · rw [if_pos hcomparison] at hexpected ⊢
      exact Option.some.inj hexpected
    · rw [if_neg hcomparison] at hexpected ⊢
      exact Option.some.inj hexpected

/-- The body of the typed operator goes on as the generic one does. -/
theorem BinaryOp.sameUpToOperator_generic (hq : op.typedPrimitive? ty = some q) :
    ∃ run, q.body = .compute run ∧ ∀ (s s' : Site) (a : Arena), s.Sibling s' →
      (∀ o ∈ s.node.inputs, o.IsInput s.structs a s.fp ty) →
        SameUpToOperator s.name s'.name (op.generic s a) (run s' a) := by
  have htyped : ∀ run, op.typed? ty = some run → q.body = .compute run →
      ∃ run, q.body = .compute run ∧ ∀ (s s' : Site) (a : Arena), s.Sibling s' →
        (∀ o ∈ s.node.inputs, o.IsInput s.structs a s.fp ty) →
          SameUpToOperator s.name s'.name (op.generic s a) (run s' a) := by
    intro run hrun hbody
    refine ⟨run, hbody, fun s s' a h hinputs => ?_⟩
    rw [generic_eq hrun hinputs]
    exact sameUpToOperator_typed h hrun
  unfold typedPrimitive? at hq
  split at hq
  · cases hq
    exact htyped _ rfl rfl
  · split at hq
    · rename_i hfloats
      cases hq
      refine htyped (op.floats _) ?_ rfl
      rw [typed?, if_pos hfloats]
    · cases hq
  · cases hq
    exact htyped conjunction rfl rfl
  · cases hq
    exact htyped disjunction rfl rfl
  · cases hq
    exact htyped (equality true) rfl rfl
  · cases hq
    exact htyped (equality false) rfl rfl
  · cases hq
    -- the equality of strings is written on its own, not as the equality of values
    refine ⟨_, rfl, fun s s' a h hinputs => ?_⟩
    have hrun : (compare .eq).typed? .str = some (equality true) := rfl
    have hinputs' : ∀ o ∈ s'.node.inputs, o.IsInput s'.structs a s'.fp .str := by
      rw [h.inputs_eq, h.structs_eq, h.fp_eq]
      exact hinputs
    rw [generic_eq hrun hinputs]
    exact equality_str hinputs' ▸ sameUpToOperator_typed h hrun
  · cases hq

end Typed

/-- The same value, or the same error but for the operator that it names, in the same state. -/
inductive SameOutcome (name name' : String) {σ α : Type} :
    EStateM.Result Error σ α → EStateM.Result Error σ α → Prop where
  | ok (x : α) (s : σ) : SameOutcome name name' (.ok x s) (.ok x s)
  | error {e e' : Error} (h : e.Renamed name name' e') (s : σ) :
      SameOutcome name name' (.error e s) (.error e' s)

namespace SameOutcome

variable {σ τ α β : Type} {name name' : String} {act act' : Action σ α} {s : σ}

theorem refl (r : EStateM.Result Error σ α) : SameOutcome name name' r r := by
  cases r with
  | ok x s => exact .ok x s
  | error e s => exact .error (.same e) s

theorem bind {f g : α → Action σ β} (h : SameOutcome name name' (act s) (act' s))
    (hf : ∀ x t, SameOutcome name name' (f x t) (g x t)) :
    SameOutcome name name' ((act >>= f) s) ((act' >>= g) s) := by
  change SameOutcome name name' (EStateM.bind act f s) (EStateM.bind act' g s)
  unfold EStateM.bind
  generalize act s = r at h
  generalize act' s = r' at h
  cases h with
  | ok x t => exact hf x t
  | error h t => exact .error h t

theorem query {f g : σ → Except Error α} (h : SameUpToOperator name name' (f s) (g s)) :
    SameOutcome name name' (Action.query f s) (Action.query g s) := by
  unfold Action.query
  generalize f s = r at h
  generalize g s = r' at h
  cases h with
  | ok x => exact .ok x s
  | error h => exact .error h s

theorem look {f g : Arena → Except Error α} {w : Workspace}
    (h : SameUpToOperator name name' (f w.arena) (g w.arena)) :
    SameOutcome name name' (Workspace.look f w) (Workspace.look g w) :=
  query (f := fun w : Workspace => f w.arena) (g := fun w : Workspace => g w.arena) h

theorem within [Inhabited σ] {get : τ → σ} {set : σ → τ → τ} {t : τ}
    (h : SameOutcome name name' (act (get t)) (act' (get t))) :
    SameOutcome name name' (Action.within get set act t) (Action.within get set act' t) := by
  unfold Action.within
  dsimp only
  generalize act (get t) = r at h
  generalize act' (get t) = r' at h
  cases h with
  | ok x u => exact .ok x _
  | error h u => exact .error h _

end SameOutcome

/-- Sibling sites commit alike. -/
theorem Site.Sibling.commit {s s' : Site} (h : s.Sibling s') (slots : Slots) (a : Arena) :
    SameOutcome s.name s'.name (s.commit slots a) (s'.commit slots a) := by
  unfold Site.commit
  refine SameOutcome.bind (SameOutcome.query ?_) fun pending b => .refl _
  rw [h.outputs_eq]
  exact h.prepareAll a s.node.outputs slots

theorem Machine.executeNode_performs {m : Machine} {fp : Nat} {n : Node} {p : Primitive}
    {inputs outputs : List Operand} (h : n.Performs m.primitives p inputs outputs) :
    executeNode fp n m = onWork (p.execute (m.site fp n)) m := by
  obtain ⟨code, name, signature, hoperator, hcode⟩ := h.operator
  simp only [executeNode, get_bind_apply, hoperator, hcode]
  rfl

/-- The generic operators are the typed ones. An operator other than the two equalities accepts the
types that it finds a body for, which are those that have an operator of that name of their own; the
equalities have one for scalars, and `und.eq` for strings. On inputs of a type that has one, the
generic operator does the same as that one, in every state. -/
theorem generic_operators_are_typed (op : BinaryOp) (ty : Ty) :
    op.genericPrimitive ∈ library ∧ op.genericPrimitive.name = s!"und.{op.name}" ∧
    (op ≠ .compare .eq → op ≠ .compare .uneq →
      ((∃ result, op.genericPrimitive.signature.Admits [ty, ty] [result]) ↔
        (op.typed? ty).isSome = true) ∧
      (op.typed? ty).isSome = (op.typedPrimitive? ty).isSome) ∧
    (op = .compare .eq ∨ op = .compare .uneq →
      ty.isScalar = true ∨ op = .compare .eq ∧ ty = .str → (op.typedPrimitive? ty).isSome = true) ∧
    ∀ q, op.typedPrimitive? ty = some q → q ∈ library ∧ q.name = s!"{ty.text}.{op.name}" ∧
      ∀ (m : Machine) (fp : Nat) (n n' : Node),
        n.AppliesPrimitive m.primitives op.genericPrimitive → n'.AppliesPrimitive m.primitives q →
        n'.inputs = n.inputs → n'.outputs = n.outputs →
        (∀ o ∈ n.inputs, o.IsInput m.program.structs m.arena fp ty) →
          SameOutcome op.genericPrimitive.name q.name (Machine.executeNode fp n m)
            (Machine.executeNode fp n' m) := by
  refine ⟨op.genericPrimitive_mem_library, rfl, fun heq huneq => ⟨BinaryOp.admits_iff heq huneq,
    (BinaryOp.isSome_typedPrimitive? heq huneq).symm⟩, BinaryOp.isSome_of_equality, fun q hq => ?_⟩
  obtain ⟨hmem, hname⟩ := BinaryOp.typedPrimitive?_eq_some hq
  refine ⟨hmem, hname, fun m fp n n' hn hn' hinputs houtputs hty => ?_⟩
  obtain ⟨run, hbody, hsame⟩ := BinaryOp.sameUpToOperator_generic hq
  have hsibling : (m.site fp n).Sibling (m.site fp n') := ⟨rfl, rfl, hinputs, houtputs⟩
  rw [← hn.name_site fp, ← hn'.name_site fp]
  have hexecute : SameOutcome (m.site fp n).name (m.site fp n').name
      (op.genericPrimitive.execute (m.site fp n) m.work) (q.execute (m.site fp n') m.work) := by
    have hbodies : SameOutcome (m.site fp n).name (m.site fp n').name
        (op.genericPrimitive.body.run (m.site fp n) m.work) (q.body.run (m.site fp n') m.work) := by
      rw [hbody]
      exact SameOutcome.look (hsame _ _ m.arena hsibling hty)
    refine SameOutcome.bind hbodies fun slots w => ?_
    exact SameOutcome.within (hsibling.commit slots w.arena)
  rw [Machine.executeNode_performs hn.performs, Machine.executeNode_performs hn'.performs]
  exact SameOutcome.within hexecute

/-- The slot of a number in the frame. -/
def numberOperand (name : String) (offset : Nat) : Operand :=
  { name, ty := .i32, storage := .frame offset }

/-- The quotient of two numbers, by the operator of the table with that code. -/
def quotientNode (code : Nat) (p : Primitive) : Node where
  operator := some (.native code p.name p.signature)
  inputs := [numberOperand "x" 0, numberOperand "y" 4]
  outputs := [numberOperand "z" 8]

/-- A machine with three numbers in its frame, all of them 0. -/
def quotientMachine : Machine where
  program := {}
  primitives := .standard
  options := {}
  work := {
    arena := {
      image := Array.replicate 20 0, stackStart := 8, stackEnd := 20, capacity := 20, limit := 20 }
    random := .ofSeed 0 }
  stack := { maxDepth := 1 }

/-- Dividing by 0 fails under the name of the operator that was asked for. -/
theorem generic_operators_are_typed_quotientMachine :
    (∃ result, (BinaryOp.div).genericPrimitive.signature.Admits [.i32, .i32] [result]) ∧
    Machine.executeNode 8 (quotientNode 4 (BinaryOp.div).genericPrimitive) quotientMachine =
      .error (.divisionByZero "und.div") quotientMachine ∧
    SameOutcome "und.div" "i32.div"
      (Machine.executeNode 8 (quotientNode 4 (BinaryOp.div).genericPrimitive) quotientMachine)
      (Machine.executeNode 8 (quotientNode 71 (BinaryOp.div.intPrimitive .i32))
        quotientMachine) := by
  obtain ⟨-, -, haccepts, -, htyped⟩ := generic_operators_are_typed .div .i32
  have hsome : (BinaryOp.div.typed? .i32).isSome = true := rfl
  refine ⟨(haccepts (by decide) (by decide)).1.mpr hsome, rfl, ?_⟩
  obtain ⟨-, -, hsame⟩ := htyped (BinaryOp.div.intPrimitive .i32) rfl
  have hsupplies : ∀ name offset, (numberOperand name offset).Supplies
      quotientMachine.program.structs .i32 := by
    intro name offset
    refine ⟨fun o ho => ?_, rfl⟩
    rw [Operand.nested_eq] at ho
    cases List.mem_singleton.mp ho
    exact ⟨nofun, trivial, trivial⟩
  refine hsame quotientMachine 8 _ _ ⟨4, rfl, rfl⟩ ⟨71, rfl, rfl⟩ rfl rfl ?_
  intro o ho
  simp only [quotientNode, List.mem_cons, List.not_mem_nil, or_false] at ho
  rcases ho with rfl | rfl
  · exact (hsupplies _ _).isInput nofun
  · exact (hsupplies _ _).isInput nofun

end FlatMachine
