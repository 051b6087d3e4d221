import FlatMachine.Machine.Run
import FlatMachine.Proofs.Checking

/-!
# Forward declarations

A call operator copies the signature that its function has when the operator is asked for. Later
declarations and additions may replace that signature, and a program is built as soon as every
declared name has a function. So an operator carries what was given to the name last before the
request, while the function that runs is the last one added.
-/

namespace FlatMachine

/-- What a draft is asked to do. -/
inductive Edit where
  | defineStruct (name : String) (fields : List (String × Ty))
  | addGlobal (package name : String) (ty : Ty)
  | addLiteral (value : Value) (ty : Ty)
  | declareFunction (f : FunctionName) (signature : Signature)
  | addFunction (f : Function)

namespace Edit

/-- The signature that the edit gives to a name. -/
def signature? (name : FunctionName) : Edit → Option Signature
  | declareFunction f signature => if f = name then some signature else none
  | addFunction f => if f.reference = name then some f.signature else none
  | _ => none

def function? (name : FunctionName) : Edit → Option Function
  | addFunction f => if f.reference = name then some f else none
  | _ => none

end Edit

/-- The signature last given to a name. -/
def lastSignature (name : FunctionName) (edits : List Edit) : Option Signature :=
  (edits.filterMap (·.signature? name)).getLast?

def lastFunction (name : FunctionName) (edits : List Edit) : Option Function :=
  (edits.filterMap (·.function? name)).getLast?

namespace Draft

/-- The draft after an edit; a failing one changes at most the count of literals. -/
def edit (d : Draft) : Edit → Draft
  | .defineStruct name fields =>
    match d.defineStruct name fields with
    | .ok (_, d') => d'
    | .error _ => d
  | .addGlobal package name ty =>
    match d.addGlobal package name ty with
    | .ok (_, d') => d'
    | .error _ => d
  | .addLiteral value ty =>
    match addLiteral value ty d with
    | .ok _ d' | .error _ d' => d'
  | .declareFunction f signature => d.declareFunction f signature
  | .addFunction f => d.addFunction f

def edited (edits : List Edit) : Draft := edits.foldl edit {}

def signature? (d : Draft) (name : FunctionName) : Option Signature :=
  (d.signatures.find? (·.1 == name)).map (·.2)

def function? (d : Draft) (name : FunctionName) : Option Function :=
  d.functions.find? (·.reference == name)

section Lookup

variable {d : Draft} {e : Edit} {edits : List Edit} {name : FunctionName} {α : Type}

/-- An entry put in front in place of those with its key is what its key leads to. -/
theorem find?_replace (key : α → FunctionName) (a : α) (entries : List α) (name : FunctionName) :
    (a :: entries.filter (key · != key a)).find? (key · == name) =
      (if key a = name then some a else none).or (entries.find? (key · == name)) := by
  by_cases h : key a = name
  · rw [List.find?_cons_of_pos (by simpa using h), if_pos h, Option.some_or]
  · rw [List.find?_cons_of_neg (by simpa using h), if_neg h, Option.none_or, List.find?_filter]
    congr 1
    funext b
    by_cases hb : key b = name
    · have hne : name ≠ key a := Ne.symm h
      simp [hb, hne]
    · simp [hb]

theorem signature?_declareFunction (d : Draft) (f : FunctionName) (signature : Signature) :
    (d.declareFunction f signature).signature? name =
      (if f = name then some signature else none).or (d.signature? name) := by
  have hfind := find?_replace Prod.fst (f, signature) d.signatures name
  change ((((f, signature) :: _).find? _).map _) = _
  rw [hfind, Option.map_or, apply_ite (Option.map Prod.snd)]
  rfl

theorem addLiteral_functions {value : Value} {ty : Ty} :
    Action.Ends (addLiteral value ty) d
      (fun _ d' => d'.signatures = d.signatures ∧ d'.functions = d.functions)
      (fun _ d' => d'.signatures = d.signatures ∧ d'.functions = d.functions) := by
  unfold Action.Ends addLiteral
  dsimp only
  split <;> rename_i heq <;> split at heq <;> cases heq <;> exact ⟨rfl, rfl⟩

/-- Data edits leave the functions and signatures as they are. -/
theorem edit_data (hsignature : ∀ name, e.signature? name = none) :
    (d.edit e).signatures = d.signatures ∧ (d.edit e).functions = d.functions := by
  cases e with
  | defineStruct name fields =>
    simp only [edit]
    split
    · rename_i s d' hdefine
      obtain ⟨⟨s, structs⟩, -, h⟩ := bind_eq_ok.mp hdefine
      cases h
      exact ⟨rfl, rfl⟩
    · exact ⟨rfl, rfl⟩
  | addGlobal package name ty =>
    simp only [edit]
    split
    · rename_i o d' hglobal
      obtain ⟨size, -, h⟩ := bind_eq_ok.mp hglobal
      cases h
      exact ⟨rfl, rfl⟩
    · exact ⟨rfl, rfl⟩
  | addLiteral value ty =>
    simp only [edit]
    split
    · rename_i o d' hliteral
      exact addLiteral_functions.value hliteral
    · rename_i e d' hliteral
      exact addLiteral_functions.failure hliteral
  | declareFunction f signature => exact absurd (hsignature f) (by simp [Edit.signature?])
  | addFunction f => exact absurd (hsignature f.reference) (by simp [Edit.signature?])

theorem signature?_edit (d : Draft) (e : Edit) :
    (d.edit e).signature? name = (e.signature? name).or (d.signature? name) := by
  cases e with
  | declareFunction f signature => exact signature?_declareFunction d f signature
  | addFunction f => exact signature?_declareFunction d f.reference f.signature
  | _ =>
    rw [signature?, (edit_data ?_).1]
    · rfl
    · exact fun _ => rfl

theorem function?_edit (d : Draft) (e : Edit) :
    (d.edit e).function? name = (e.function? name).or (d.function? name) := by
  cases e with
  | addFunction f => exact find?_replace Function.reference f d.functions name
  | declareFunction f signature => rfl
  | _ =>
    rw [function?, (edit_data ?_).2]
    · rfl
    · exact fun _ => rfl

/-- What every edit may replace is, after all of them, what was given last. -/
theorem look_foldl (look : Draft → Option α) (given : Edit → Option α)
    (hedit : ∀ d e, look (d.edit e) = (given e).or (look d)) (d : Draft) (edits : List Edit) :
    look (edits.foldl edit d) = ((edits.filterMap given).getLast?).or (look d) := by
  induction edits generalizing d with
  | nil => rfl
  | cons e rest ih =>
    rw [List.foldl_cons, ih, hedit]
    cases hgiven : given e with
    | none =>
      rw [List.filterMap_cons_none hgiven]
      rfl
    | some a =>
      rw [List.filterMap_cons_some hgiven, List.getLast?_cons]
      cases (rest.filterMap given).getLast? <;> rfl

theorem signature?_edited (name : FunctionName) (edits : List Edit) :
    (edited edits).signature? name = lastSignature name edits := by
  have hlook := look_foldl (·.signature? name) (·.signature? name) signature?_edit {} edits
  rwa [show ({} : Draft).signature? name = none from rfl, Option.or_none] at hlook

theorem function?_edited (name : FunctionName) (edits : List Edit) :
    (edited edits).function? name = lastFunction name edits := by
  have hlook := look_foldl (·.function? name) (·.function? name) function?_edit {} edits
  rwa [show ({} : Draft).function? name = none from rfl, Option.or_none] at hlook

theorem callOperator_eq_ok {op : Operator} : d.callOperator name = .ok op ↔
    ∃ signature, d.signature? name = some signature ∧ op = .call name signature := by
  unfold callOperator signature?
  cases d.signatures.find? (·.1 == name) with
  | none => simp
  | some entry => simp [eq_comm]

/-- In a draft that can be built every name with a signature has a function. -/
theorem build_functions {p : Program} {signature : Signature} (h : d.build = .ok p)
    (hname : d.signature? name = some signature) :
    ∃ f, p.function? name = some f ∧ d.function? name = some f := by
  unfold build at h
  split at h
  · cases h
  · rename_i hnone
    cases h
    obtain ⟨entry, hentry, -⟩ := Option.map_eq_some_iff.mp hname
    have hkey : entry.1 = name := by simpa using List.find?_some hentry
    have hall := List.find?_eq_none.mp hnone entry (List.mem_of_find?_eq_some hentry)
    have hany : d.functions.any (·.reference == name) = true := by simpa [hkey] using hall
    obtain ⟨f, hf⟩ := Option.isSome_iff_exists.mp (List.find?_isSome.mpr (List.any_eq_true.mp hany))
    exact ⟨f, hf, hf⟩

end Lookup

end Draft

section Accepted

variable {l : FrameLayout} {op : Operator} {i pc length : Nat} {first first' : Option Ty}
  {os : List Operand} {ps : List Param} {n : Node} {f : Function} {name : FunctionName}

theorem forall₂_checkInputs (hlen : os.length = ps.length)
    (h : l.checkInputs op i first os ps = .ok first') :
    List.Forall₂ (fun o p => ∃ ty, l.inputTy o = .ok ty ∧ p.accepts ty = true) os ps := by
  induction os generalizing ps i first with
  | nil =>
    obtain rfl := List.length_eq_zero_iff.mp hlen.symm
    exact .nil
  | cons o os ih =>
    cases ps with
    | nil => cases hlen
    | cons p ps =>
      have hlen := Nat.succ.inj hlen
      rw [FrameLayout.checkInputs] at h
      obtain ⟨ty, hty, h⟩ := bind_eq_ok.mp h
      by_cases haccepts : p.accepts ty = true
      · refine .cons ⟨ty, hty, haccepts⟩ ?_
        simp only [haccepts] at h
        cases first with
        | none => exact ih hlen h
        | some head =>
          by_cases hhead : (p.sameAsFirst && head != ty) = true
          · simp only [hhead] at h
            cases h
          · simp only [hhead] at h
            exact ih hlen h
      · simp only [haccepts] at h
        cases h

theorem forall₂_checkOutputs (hlen : os.length ≤ ps.length)
    (h : l.checkOutputs op i first os ps = .ok ()) :
    List.Forall₂ (fun o p => p.ty.isDefined = true → o.valueTy l.structs = .ok p.ty) os
      (ps.take os.length) := by
  induction os generalizing ps i with
  | nil => exact .nil
  | cons o os ih =>
    cases ps with
    | nil => cases hlen
    | cons p ps =>
      have hlen := Nat.le_of_succ_le_succ hlen
      rw [FrameLayout.checkOutputs] at h
      rw [List.length_cons, List.take_succ_cons]
      by_cases hdefined : p.ty.isDefined = true
      · simp only [if_pos hdefined] at h
        obtain ⟨ty, hty, h⟩ := bind_eq_ok.mp h
        by_cases hne : (ty != p.ty) = true
        · simp only [hne] at h
          cases h
        · simp only [hne] at h
          have heq : ty = p.ty := by simpa using hne
          exact .cons (fun _ => heq ▸ hty) (ih hlen h)
      · refine .cons (absurd · hdefined) ?_
        simp only [if_neg hdefined] at h
        cases first with
        | none => exact ih hlen h
        | some expected =>
          obtain ⟨ty, -, h⟩ := bind_eq_ok.mp h
          by_cases hne : (ty != expected) = true
          · simp only [hne] at h
            cases h
          · simp only [hne] at h
            exact ih hlen h

/-- The inputs and outputs of a node have the types of a function's parameters and first results,
wherever the function declares one. -/
structure Node.Fits (l : FrameLayout) (n : Node) (f : Function) : Prop where
  inputs : List.Forall₂ (fun o slot => ∃ ty, l.inputTy o = .ok ty ∧
    (slot.ty.isDefined = true → ty = slot.ty)) n.inputs f.params
  outputs : List.Forall₂ (fun o slot => slot.ty.isDefined = true →
    o.valueTy l.structs = .ok slot.ty) n.outputs (f.returns.take n.outputs.length)

/-- A call node that is accepted with the signature of a function fits the function. -/
theorem fits_of_checkNode (hop : n.operator = some (.call name f.signature))
    (h : l.checkNode pc length n = .ok ()) : n.Fits l f := by
  rw [FrameLayout.checkNode, hop] at h
  by_cases hmany : f.signature.outputs.length < n.outputs.length
  · simp only [if_pos hmany] at h
    cases h
  · simp only [if_neg hmany] at h
    change l.checkSignature _ f.signature n = .ok () at h
    unfold FrameLayout.checkSignature at h
    by_cases hcount : n.inputs.length ≠ f.signature.inputs.length
    · simp only [if_pos hcount] at h
      cases h
    · simp only [if_neg hcount] at h
      obtain ⟨first, hfirst, h⟩ := bind_eq_ok.mp h
      have hinputs := forall₂_checkInputs (not_not.mp hcount) hfirst
      have houtputs := forall₂_checkOutputs (not_lt.mp hmany) h
      simp only [Function.signature, Signature.of, List.map_map, ← List.map_take,
        List.forall₂_map_right_iff] at hinputs houtputs
      refine ⟨hinputs.imp ?_, houtputs⟩
      rintro o slot ⟨ty, hty, haccepts⟩
      refine ⟨ty, hty, fun hdefined => ?_⟩
      have hsame : (slot.ty == ty) = true := by
        simpa [Param.accepts, Param.of, hdefined] using haccepts
      exact (beq_iff_eq.mp hsame).symm

end Accepted

section History

variable {name : FunctionName} {before after : List Edit} {op : Operator} {p : Program}

theorem signature?_of_function? {e : Edit} {f : Function} (h : e.function? name = some f) :
    e.signature? name = some f.signature := by
  cases e with
  | addFunction g =>
    simp only [Edit.function?] at h
    simp only [Edit.signature?]
    by_cases hg : g.reference = name
    · rw [if_pos hg] at h ⊢
      cases h
      rfl
    · rw [if_neg hg] at h
      cases h
  | _ => cases h

/-- An operator carries the signature that its name was given last before the request, and the
program runs the function that was put under the name last. They agree if no edit gives the name
another signature, and then a call node that is accepted with the operator fits the function. -/
theorem carried_signature (hcall : (Draft.edited before).callOperator name = .ok op)
    (hbuild : (Draft.edited (before ++ after)).build = .ok p) :
    ∃ carried f, op = .call name carried ∧ lastSignature name before = some carried ∧
      p.function name = .ok f ∧ lastFunction name (before ++ after) = some f ∧
      ((∀ e ∈ before ++ after, ∀ signature, e.signature? name = some signature →
        signature = carried) → f.signature = carried) ∧
      (f.signature = carried → ∀ (l : FrameLayout) (pc length : Nat) (n : Node),
        n.operator = some op → l.checkNode pc length n = .ok () → n.Fits l f) := by
  obtain ⟨carried, hcarried, rfl⟩ := Draft.callOperator_eq_ok.mp hcall
  rw [Draft.signature?_edited] at hcarried
  -- A name that had a signature at the request still has one when the program is built.
  obtain ⟨signature, hsignature⟩ : ∃ signature,
      (Draft.edited (before ++ after)).signature? name = some signature := by
    rw [Draft.edited, List.foldl_append, Draft.look_foldl (·.signature? name) (·.signature? name)
      Draft.signature?_edit]
    change ∃ signature, Option.or _ ((Draft.edited before).signature? name) = some signature
    rw [Draft.signature?_edited, hcarried]
    cases (after.filterMap (·.signature? name)).getLast? with
    | none => exact ⟨_, rfl⟩
    | some signature => exact ⟨_, rfl⟩
  obtain ⟨f, hrun, hlast⟩ := Draft.build_functions hbuild hsignature
  rw [Draft.function?_edited] at hlast
  refine ⟨carried, f, rfl, hcarried, by rw [Program.function, hrun], hlast, fun hsame => ?_, ?_⟩
  · obtain ⟨e, he, hf⟩ := List.mem_filterMap.mp (List.mem_of_getLast? hlast)
    exact hsame e he _ (signature?_of_function? hf)
  · rintro rfl l pc length n hop hcheck
    exact fits_of_checkNode hop hcheck

def oneName : FunctionName := ⟨"main", "one"⟩

/-- Stores a number and declares that `one` yields an `i32`. -/
def oneDeclared (value : Value) (ty : Ty) : List Edit :=
  [.addLiteral value ty, .declareFunction oneName (.of [] [.i32])]

/-- Yields the stored number. -/
def oneDraft (ty : Ty) : FunctionDraft where
  package := "main"
  name := "one"
  returns := [("x", ty)]
  body := [{
    inputs := [{ name := "$lit0", ty, storage := .global 8 }]
    outputs := [{ name := "x" }] }]

def callsOneDraft : FunctionDraft where
  package := "main"
  name := "main"
  returns := [("r", .i32)]
  body := [{ operator := some (.call oneName (.of [] [.i32])), outputs := [{ name := "r" }] }]

/-- `oneDraft`, laid out. -/
def one (ty : Ty) : Function where
  package := "main"
  name := "one"
  returns := [{ name := "x", ty, storage := .frame 0, package := "main", declared := true }]
  body := [{
    inputs := [{ name := "$lit0", ty, storage := .global 8, package := "main" }]
    outputs := [{ name := "x", ty, storage := .frame 0, package := "main" }]
    package := "main" }]
  frameSize := 4

def callsOne : Function where
  package := "main"
  name := "main"
  returns := [{ name := "r", ty := .i32, storage := .frame 0, package := "main", declared := true }]
  body := [{
    operator := some (.call oneName (.of [] [.i32]))
    outputs := [{ name := "r", ty := .i32, storage := .frame 0, package := "main" }]
    package := "main" }]
  frameSize := 4

/-- The program of `main` and `one`, in which `one` has come last. -/
def oneProgram (number : Bytes) (ty : Ty) : Program where
  data := List.replicate nilGuard 0 ++ number
  functions := [one ty, callsOne]

/-- `one` is declared and added as a function that yields an `i32`. -/
theorem carried_signature_one :
    let before := oneDeclared (.i32 1) .i32
    let after := [Edit.addFunction callsOne, .addFunction (one .i32)]
    (Draft.edited (before ++ after)).build = .ok (oneProgram [1, 0, 0, 0] .i32) ∧
      ∃ f, (oneProgram [1, 0, 0, 0] .i32).function oneName = .ok f ∧
        (Draft.edited before).callOperator oneName = .ok (.call oneName f.signature) := by
  intro before after
  have hcall : (Draft.edited before).callOperator oneName =
      .ok (.call oneName (.of [] [.i32])) := rfl
  have hbuild : (Draft.edited (before ++ after)).build = .ok (oneProgram [1, 0, 0, 0] .i32) := rfl
  have hgiven : (before ++ after).filterMap (·.signature? oneName) =
      [.of [] [.i32], .of [] [.i32]] := rfl
  obtain ⟨carried, f, hop, -, hf, -, hagree, -⟩ := carried_signature hcall hbuild
  cases hop
  refine ⟨hbuild, f, hf, ?_⟩
  rw [hagree]
  · exact hcall
  · intro e he signature hsignature
    have hmem := List.mem_filterMap.mpr ⟨e, he, hsignature⟩
    rw [hgiven] at hmem
    simpa using hmem

def oneMachine : Machine where
  program := oneProgram [0, 0, 0x80, 0x3F] .f32
  primitives := .standard
  options := {}
  work := {
    arena := {
      image := #[0, 0, 0, 0, 0, 0, 0, 0, 0, 0, 0x80, 0x3F, 0, 0, 0, 0, 0, 0, 0, 0, 0, 0, 0, 0]
      stackStart := 12, stackEnd := 24, capacity := 24, limit := 24 }
    random := .ofSeed 0 }
  stack := { maxDepth := 2 }

/-- `one` is declared to yield an `i32` and added as a function that yields an `f32`. The program is
built, and `main` yields the bits of 1.0 as an integer. -/
theorem exists_dishonoured_declaration :
    let before := oneDeclared (.float .f32 0x3F800000) .f32
    let after := [Edit.addFunction callsOne, .addFunction (one .f32)]
    (Draft.edited before).callOperator oneName = .ok (.call oneName (.of [] [.i32])) ∧
      callsOneDraft.layout (Draft.edited before) = .ok callsOne ∧
      (oneDraft .f32).layout (Draft.edited before) = .ok (one .f32) ∧
      (Draft.edited (before ++ after)).build = .ok oneMachine.program ∧
      oneMachine.program.function oneName = .ok (one .f32) ∧
      (one .f32).signature ≠ .of [] [.i32] ∧
      ((oneMachine.startCall ⟨"main", "main"⟩ []).finish? 5).map (·.2.toOption) =
        some (some [[0, 0, 0x80, 0x3F]]) :=
  ⟨rfl, rfl, rfl, rfl, rfl, by decide, by decide +kernel⟩

end History

end FlatMachine
