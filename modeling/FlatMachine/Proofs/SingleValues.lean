import FlatMachine.Proofs.CompoundAssignment

/-!
# Assignments of a single value

A single-value assignment takes its value from what the last node gives. An operator without a
signature, or without results, gives nothing that could be assigned, and an operator with several
results is left to `multiAssignment`: `=` and `:=` refuse them all. A compound assignment refuses
those that give nothing, but takes the first of several results into its temporary.
-/

namespace FlatMachine

open FlatMachine.Action

/-- The operator has a signature with exactly one result. -/
def Operator.isSingleValued (operator : Operator) : Bool :=
  operator.signature?.any (·.outputs.length == 1)

/-- The operator has a signature with two results or more. -/
def Operator.isMultiValued (operator : Operator) : Bool :=
  operator.signature?.any (2 ≤ ·.outputs.length)

theorem Operator.isMultiValued_iff {operator : Operator} : operator.isMultiValued = true ↔
    ∃ signature first second rest, operator.signature? = some signature ∧
      signature.outputs = first :: second :: rest := by
  unfold isMultiValued
  cases operator.signature? with
  | none => simp
  | some signature =>
    obtain ⟨inputs, outputs⟩ := signature
    match outputs with
    | [] => simp
    | [first] => simp
    | first :: second :: rest => simp

namespace Lowering

variable {lw lw' : Lowering} {op : AssignOp} {target value ns : List Node} {last : Node}
  {operator : Operator} {e : Error} {α : Type}

/-- Why an assignment is refused: something about it is malformed, the table lacks an operator that
the lowered nodes apply, or an operand that types the symbol they declare has no type. -/
inductive Refusal (lw : Lowering) (target : List Node) (op : AssignOp) (last : Node) :
    Error → Prop where
  | malformed (reason : String) : Refusal lw target op last (.invalidAssignment reason)
  | copy {e : Error} (hop : op.isCompound = false)
      (h : lw.primitives.operator "identity" = .error e) : Refusal lw target op last e
  | operator {name : String} {e : Error} (hop : op.primitive? = some name)
      (h : lw.primitives.operator name = .error e) : Refusal lw target op last e
  | firstInput {e : Error} (hop : op ≠ .assign) (h : lw.firstInputTy last = .error e) :
      Refusal lw target op last e
  | target {t : Operand} {e : Error} (hop : op.isCompound = true) (ht : target? target = some t)
      (h : lw.knownTy t = .error e) : Refusal lw target op last e

theorem gives_require {found : Option α} {reason : String} {ok : α → Prop}
    (h : ∀ a, found = some a → ok a) :
    Gives (require found reason) ok (lw.Refusal target op last) := by
  cases found with
  | none => exact .malformed reason
  | some a => exact h a rfl

theorem ends_lookup {β : Type} {r : Except Error α} {f : α → Action Lowering β}
    {ok : β → Lowering → Prop} (h : Gives r (fun a => Ends (f a) lw ok fun e lw' =>
      lw' = lw ∧ lw.Refusal target op last e) (lw.Refusal target op last)) :
    Ends (Action.ofExcept r >>= f) lw ok fun e lw' =>
      lw' = lw ∧ lw.Refusal target op last e := by
  rw [ends_bind, ends_ofExcept]
  exact h.mono (fun _ h => h) fun _ h => ⟨rfl, h⟩

section Operator

variable (hop : last.operator = some operator) (hmany : operator.isSingleValued = false)

include hop hmany

/-- Lowering knows the type of a value that is the first of several results. -/
theorem gives_outputTy (hassign : op ≠ .assign) : Gives (lw.outputTy last)
    (fun _ => operator.isMultiValued = true) (lw.Refusal target op last) := by
  unfold outputTy
  rw [hop, Option.bind_some, gives_bind]
  refine gives_require fun signature hsignature => ?_
  rw [gives_bind]
  refine gives_require fun first hfirst => ?_
  have hmulti : operator.isMultiValued = true := by
    rw [Operator.isSingleValued, hsignature] at hmany
    rw [Operator.isMultiValued, hsignature]
    obtain ⟨rest, hrest⟩ := List.head?_eq_some_iff.mp hfirst
    cases rest with
    | nil => simp [hrest] at hmany
    | cons second rest => simp [hrest]
  rw [gives_ite]
  exact ⟨fun _ => hmulti, fun _ => gives_iff.mpr ⟨fun _ _ => hmulti, fun e he =>
    .firstInput hassign he⟩⟩

theorem gives_retargetNode (copy : Operator) : Gives (lw.retargetNode copy last) (fun _ => False)
    (lw.Refusal target op last) := by
  unfold retargetNode
  rw [hop]
  dsimp only
  rw [gives_bind]
  refine gives_require fun signature hsignature => ?_
  rw [Operator.isSingleValued, hsignature] at hmany
  obtain ⟨inputs, outputs⟩ := signature
  match outputs with
  | [] => exact .malformed _
  | [first] => cases hmany
  | first :: second :: rest => exact .malformed _

variable (hlast : value.getLast? = some last)

include hlast

/-- The plain assignment takes exactly one result. -/
theorem gives_retarget (hcompound : op.isCompound = false) (nodes : List Node) :
    Gives (lw.retarget nodes value) (fun _ => False) (lw.Refusal target op last) := by
  unfold retarget
  rw [gives_bind, hlast]
  refine gives_iff.mpr ⟨fun copy _ => ?_, fun e he => .copy hcompound he⟩
  change Gives (lw.retargetNode copy last >>= _) _ _
  rw [gives_bind]
  exact (gives_retargetNode hop hmany copy).imp fun _ h => h.elim

variable (hfield : last.isStructField = false) (helement : last.isArrayElement = false)

include hfield helement

theorem gives_declareTarget (hassign : op ≠ .assign) : Gives (lw.declareTarget target value)
    (fun _ => True) (lw.Refusal target op last) := by
  unfold declareTarget
  obtain ⟨earlier, rfl⟩ := List.getLast?_eq_some_iff.mp hlast
  rw [declaredTy_applies ⟨hop, hfield, helement⟩, gives_bind]
  refine gives_require fun t _ => ?_
  rw [gives_bind]
  exact (gives_outputTy hop hmany hassign).imp fun _ _ => trivial

omit hfield helement in
theorem ends_shortAssignment (hcompound : op.isCompound = true) :
    Ends (shortAssignment op target value) lw (fun _ _ => operator.isMultiValued = true)
      fun e lw' => lw' = lw ∧ lw.Refusal target op last e := by
  have hassign : op ≠ .assign := by
    rintro rfl
    cases hcompound
  have hbare : ¬ last.isBare = true := by simp [Node.isBare, hop]
  unfold shortAssignment
  rw [ends_bind, ends_get]
  refine ends_lookup (gives_require fun name hname => ?_)
  refine ends_lookup (gives_require fun t ht => ?_)
  rw [hlast]
  refine ends_lookup (gives_require ?_)
  rintro _ ⟨⟩
  refine ends_lookup (gives_iff.mpr ⟨fun applied _ => ?_, fun e he => .operator hname he⟩)
  rw [if_neg hbare]
  refine ends_lookup ((gives_outputTy hop hmany hassign).imp fun result hmulti => ?_)
  dsimp only
  rw [ends_ite]
  refine ⟨fun _ => hmulti, fun _ => ?_⟩
  exact ends_lookup (gives_iff.mpr ⟨fun _ _ => hmulti, fun e he => .target hcompound ht he⟩)

/-- An assignment that is not refused is a compound one and takes several results. -/
theorem ends_assignment : Ends (assignment target op value) lw
    (fun _ _ => op.isCompound = true ∧ operator.isMultiValued = true)
    fun e lw' => lw' = lw ∧ lw.Refusal target op last e := by
  unfold assignment
  rw [ends_bind, ends_get]
  refine ends_lookup (gives_require fun _ _ => ?_)
  rw [hlast]
  refine ends_lookup (gives_require ?_)
  rintro _ ⟨⟩
  rw [ends_ite]
  refine ⟨fun hcompound => ?_, fun hcompound => ?_⟩
  · exact (ends_shortAssignment hop hmany hlast hcompound).imp fun _ _ h => ⟨hcompound, h⟩
  have hplain : op.isCompound = false := by simpa using hcompound
  have hretarget : ∀ nodes, Ends (Action.ofExcept (lw.retarget nodes value)) lw
      (fun _ _ => op.isCompound = true ∧ operator.isMultiValued = true)
      fun e lw' => lw' = lw ∧ lw.Refusal target op last e := fun nodes =>
    ends_ofExcept.mpr ((gives_retarget hop hmany hlast hplain nodes).mono
      (fun _ h => h.elim) fun _ h => ⟨rfl, h⟩)
  simp only [hfield, helement, Bool.false_eq_true, if_false]
  rw [ends_ite]
  refine ⟨fun hdefine => ?_, fun _ => hretarget target⟩
  have hassign : op ≠ .assign := by simp [hdefine]
  exact ends_lookup ((gives_declareTarget hop hmany hlast hfield helement hassign).imp
    fun nodes _ => hretarget nodes)

/-- The type of the temporary that the first result is computed into. -/
def firstResultTy (lw : Lowering) (first : Param) (last : Node) (t : Operand) : Except Error Ty :=
  (if first.ty.isDefined then .ok first.ty else lw.firstInputTy last) >>= fun ty =>
    if ty.isDefined then return ty else lw.knownTy t

/-- A compound assignment drops all results but the first: the node that gives them writes a single
temporary, which goes into the operator of the assignment. -/
inductive Collapses (lw lw' : Lowering) (target : List Node) (op : AssignOp) (value : List Node)
    (last : Node) (operator : Operator) (ns : List Node) : Prop where
  | intro {signature : Signature} {first second : Param} {rest : List Param} {t : Operand}
      {name : String} {applied : Operator} {ty : Ty}
      (hsignature : operator.signature? = some signature)
      (hresults : signature.outputs = first :: second :: rest) (ht : target? target = some t)
      (hname : op.primitive? = some name) (happlied : lw.primitives.operator name = .ok applied)
      (hty : lw.firstResultTy first last t = .ok ty)
      (hlw : lw' = { lw with freshNames := lw.freshNames + 1 })
      (hns : ns = target.dropLast ++ [lw.declaration (lw.temporary ty)] ++ value.dropLast ++
        [{ last with outputs := [lw.temporary ty] },
          lw.application applied t (lw.temporary ty)])

end Operator

end Lowering

/-- An assignment of what an operator without exactly one result gives is only accepted where a
compound operator drops all of several results but the first. Any other ends in an error, and
lowering is left as it was; the error is that of a malformed assignment, unless the table lacks the
operator that lowering applies, or the operand that would type the declared symbol has no type. -/
theorem assignment_without_single_value {lw : Lowering} {op : AssignOp} {target value : List Node}
    {last : Node} {operator : Operator} (hop : last.operator = some operator)
    (hmany : operator.isSingleValued = false) (hlast : value.getLast? = some last)
    (hfield : last.isStructField = false) (helement : last.isArrayElement = false) :
    (∀ ns lw', Lowering.assignment target op value lw = .ok ns lw' ↔
      lw.Collapses lw' target op value last operator ns) ∧
    ∀ e lw', Lowering.assignment target op value lw = .error e lw' →
      lw' = lw ∧ lw.Refusal target op last e := by
  have hends : Ends (Lowering.assignment target op value) lw _ _ :=
    Lowering.ends_assignment hop hmany hlast hfield helement
  refine ⟨fun ns lw' => ⟨fun h => ?_, ?_⟩, fun e lw' h => hends.failure h⟩
  · obtain ⟨hcompound, hmulti⟩ := hends.value h
    obtain ⟨t, _, name, applied, ht, hlast', hname, happlied, hcompounds⟩ :=
      (Lowering.assignment_compound_eq_ok hcompound).mp h
    cases hlast.symm.trans hlast'
    obtain ⟨signature, first, second, rest, hsignature, hresults⟩ :=
      Operator.isMultiValued_iff.mp hmulti
    cases hcompounds with
    | bare hbare => simp [Node.isBare, hop] at hbare
    | computed _ hresult hty hlw hns =>
      rw [Lowering.outputTy_eq hop hsignature hresults] at hresult
      exact .intro hsignature hresults ht hname happlied (bind_eq_ok.mpr ⟨_, hresult, hty⟩) hlw hns
  · rintro ⟨hsignature, hresults, ht, hname, happlied, hty, hlw, hns⟩
    have hcompound : op.isCompound = true := by rw [AssignOp.isCompound, hname]; rfl
    have hbare : last.isBare = false := by simp [Node.isBare, hop]
    obtain ⟨result, hresult, hty⟩ := bind_eq_ok.mp hty
    refine (Lowering.assignment_compound_eq_ok hcompound).mpr
      ⟨_, last, _, _, ht, hlast, hname, happlied, .computed hbare ?_ hty hlw hns⟩
    rw [Lowering.outputTy_eq hop hsignature hresults]
    exact hresult

/-- A call of a function that returns two numbers. -/
def pairOperator : Operator := .call ⟨"main", "pair"⟩ (.of [] [.i32, .i32])

def pairCall : Node := { operator := some pairOperator }

/-- In `x += pair()` the second number is dropped. -/
theorem assignment_without_single_value_pairCall : pairOperator.isSingleValued = false ∧
    Lowering.assignment [.value { name := "x", ty := .i32 }] .add [pairCall] sumLowering =
      .ok [sumLowering.declaration (sumLowering.temporary .i32),
        { pairCall with outputs := [sumLowering.temporary .i32] },
        sumLowering.application sumOperator { name := "x", ty := .i32 }
          (sumLowering.temporary .i32)] { sumLowering with freshNames := 1 } :=
  ⟨rfl, ((assignment_without_single_value rfl rfl rfl rfl rfl).1 _ _).mpr
    (.intro rfl rfl rfl rfl rfl rfl rfl rfl)⟩

/-- `x += pair()` is lowered, and the function that it stands in is laid out. -/
theorem exists_collapsed_call : pairOperator.isSingleValued = false ∧
    ∃ ns lw f, Lowering.assignment [.value { name := "x", ty := .i32 }] .add [pairCall]
      sumLowering = .ok ns lw ∧ (raiseDraft.enclosing [] [] ns).layout {} = .ok f :=
  ⟨rfl, _, _, _, rfl, rfl⟩

end FlatMachine
