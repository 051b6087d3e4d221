import FlatMachine.Proofs.Execution
import FlatMachine.Proofs.Variables

/-!
# Comparing values of any type

The signatures of `und.eq` and `und.uneq` admit two inputs of any one type, but not every type has
values that can be read as a whole. On arrays, structs and slices of either, a node that the layout
has accepted never yields an answer, and is stopped by the type as soon as its first input is met in
memory. On every other type it is never stopped by the type.
-/

namespace FlatMachine

open FlatMachine.Action

/-- The error says that a type is wrong. -/
def Error.IsMismatch (e : Error) : Prop :=
  ∃ context expected got, e.root = .typeMismatch context expected got

theorem Error.Dynamic.not_isMismatch {e : Error} (h : e.Dynamic) : ¬ e.IsMismatch := by
  rintro ⟨context, expected, got, heq⟩
  exact h.root_ne.1 context expected got heq

/-- The operand leads to a place; if a slice lies there, its handle can be read. -/
def Operand.IsMet (t : StructTable) (a : Arena) (fp : Nat) (o : Operand) : Prop :=
  ∃ place, o.place t a fp = .ok place ∧
    ((∃ elem, place.ty = .slice elem) → ∃ handle, a.readHandle place.offset = .ok handle)

/-- The function passed the layout over a draft that the program has grown from, and every type that
it mentions is sized. -/
structure Program.Accepts (p : Program) (f : Function) : Prop where
  layout : ∃ (fd : FunctionDraft) (d : Draft), d.Reachable ∧ fd.layout d = .ok f ∧
    fd.Sized p.structs ∧ d.structs.Grows p.structs ∧ ∀ g ∈ d.globals, g.ty.Sized p.structs
  fields : p.structs.SizedFields

theorem Ty.elementWidth_of_unreadable {elem : Ty} (h : (slice elem).isReadable = false) :
    elem.elementWidth = .error (.typeMismatch "codec" "a scalar or handle element" elem.text) := by
  cases elem <;> first | rfl | cases h

/-- A type without readable values has none but the equality that is defined on all types. -/
theorem BinaryOp.typed?_of_unreadable {c : Comparison} {ty : Ty} (hc : c = .eq ∨ c = .uneq)
    (h : ty.isReadable = false) : ∃ expected, (compare c).typed? ty = some (equality expected) := by
  rcases hc with rfl | rfl
  · cases ty <;> first | exact ⟨true, rfl⟩ | cases h
  · cases ty <;> first | exact ⟨false, rfl⟩ | cases h

namespace Site

variable {s : Site} {a : Arena} {ins outs : List Ty} {ty : Ty} {o : Operand} {i : Nat}

/-- Reading a value where none can be read fails, for the type if the operand is met. -/
theorem gives_input_of_unreadable (hfields : s.structs.SizedFields) (ho : s.operand i = .ok o)
    (hty : o.HasTy s.structs ty) (hvalue : o.byReference = false) (hread : ty.isReadable = false) :
    Gives (s.input a i) (fun _ => False) (fun e => e.IsMismatch ↔ o.IsMet s.structs a s.fp) := by
  have hplaces : Gives (o.place s.structs a s.fp) (fun place => place.ty = ty ∧
      ty.size s.structs = .ok place.size) Error.Dynamic := hty.gives_place hfields
  simp only [input, ho, gives_bind, gives_ok, gives_ite, gives_pure]
  refine gives_iff.mpr ⟨fun place hplace => ?_, fun e hplace => ?_⟩
  · obtain ⟨rfl, -⟩ := hplaces.value hplace
    refine ⟨fun hreference => absurd hreference (by simp [hvalue]), fun _ => ?_⟩
    obtain ⟨offset, ty, size⟩ := place
    have hinPlace : (∀ elem, ty ≠ .slice elem) → o.IsMet s.structs a s.fp := by
      refine fun hslice => ⟨_, hplace, ?_⟩
      rintro ⟨elem, helem⟩
      exact absurd helem (hslice elem)
    cases ty with
    | slice elem =>
      simp only [gives_bind]
      refine gives_iff.mpr ⟨fun handle hhandle => ?_, fun e hhandle => ?_⟩
      · simp only [Arena.readObject, Ty.elementWidth_of_unreadable hread, gives_bind, gives_error]
        exact ⟨fun _ => ⟨_, hplace, fun _ => ⟨handle, hhandle⟩⟩, fun _ => ⟨_, _, _, rfl⟩⟩
      · refine ⟨fun h => absurd h (Arena.dynamic_readHandle.failure hhandle).not_isMismatch, ?_⟩
        rintro ⟨place, hmet, hslice⟩
        cases hplace.symm.trans hmet
        obtain ⟨handle, hread⟩ := hslice ⟨elem, rfl⟩
        cases hhandle.symm.trans hread
    | undefined | array | struct => exact ⟨fun _ => hinPlace nofun, fun _ => ⟨_, _, _, rfl⟩⟩
    | bool | int | float | str | pointer => cases hread
  · refine ⟨fun h => absurd h (hplaces.failure hplace).not_isMismatch, ?_⟩
    rintro ⟨place, hmet, -⟩
    cases hplace.symm.trans hmet

/-- So the comparison of two such values fails. -/
theorem gives_generic_of_unreadable {c : Comparison} (hc : c = .eq ∨ c = .uneq)
    (hs : s.Typed ins outs) (ho : s.operand 0 = .ok o) (hty : o.HasTy s.structs ty)
    (hvalue : o.byReference = false) (hread : ty.isReadable = false) :
    Gives ((BinaryOp.compare c).generic s a) (fun _ => False)
      (fun e => e.IsMismatch ↔ o.IsMet s.structs a s.fp) := by
  have hplaces : Gives (o.place s.structs a s.fp) (fun place => place.ty = ty ∧
      ty.size s.structs = .ok place.size) Error.Dynamic := hty.gives_place hs.fields
  obtain ⟨expected, hequality⟩ := BinaryOp.typed?_of_unreadable hc hread
  simp only [BinaryOp.generic, inputTy, ho, gives_bind, gives_ok, gives_pure]
  refine gives_iff.mpr ⟨fun place hplace => ?_, fun e hplace => ?_⟩
  · obtain ⟨rfl, -⟩ := hplaces.value hplace
    rw [if_neg (by simp [hvalue]), hequality]
    simp only [equality, gives_bind]
    exact (gives_input_of_unreadable hs.fields ho hty hvalue hread).imp fun _ h => h.elim
  · refine ⟨fun h => absurd h (hplaces.failure hplace).not_isMismatch, ?_⟩
    rintro ⟨place, hmet, -⟩
    cases hplace.symm.trans hmet

end Site

/-- What the layout has found out about a node that compares two values of any type. -/
theorem Program.Accepts.comparison {p : Program} {table : PrimitiveTable} {f : Function} {n : Node}
    {c : Comparison} (h : p.Accepts f) (hn : n ∈ f.body)
    (hop : n.AppliesPrimitive table (BinaryOp.compare c).genericPrimitive) : ∃ ty,
      n.Typed p.structs [ty, ty] [.bool] ∧
        (BinaryOp.compare c).genericPrimitive.signature.Admits [ty, ty] [.bool] := by
  obtain ⟨fd, d, hreachable, hlayout, hsized, hgrows, hglobals⟩ := h.layout
  obtain ⟨l, rfl, hmakes⟩ := fd.layout_eq_ok hlayout
  obtain ⟨ins, outs, htyped, hchecked⟩ := (hmakes.typed hreachable hgrows hglobals hsized).2 n hn
  obtain ⟨code, hoperator, -⟩ := hop
  rw [Node.Checked, hoperator] at hchecked
  obtain ⟨hadmits, hlen⟩ := hchecked
  obtain ⟨ty, rfl, rfl, -⟩ := hadmits.generic hlen
  exact ⟨ty, htyped, hadmits⟩

section Execution

variable {m : Machine} {fp : Nat} {n : Node} {c : Comparison} {ty : Ty} {first : Operand}

/-- On a type with readable values a comparison that the layout has accepted meets no wrong type. -/
theorem Machine.ends_comparison_readable
    (hop : n.AppliesPrimitive m.primitives (BinaryOp.compare c).genericPrimitive)
    (hsite : (m.site fp n).Typed [ty, ty] [.bool])
    (hadmits : (BinaryOp.compare c).genericPrimitive.signature.Admits [ty, ty] [.bool])
    (hread : ty.isReadable = true) :
    Ends (executeNode fp n) m (fun _ _ => True) (fun e _ => e.Dynamic) := by
  rw [ends_performs hop.performs]
  apply (Primitive.respectsSignature_generic _).ends_execute hsite hadmits rfl
  intro _ ty' hty'
  simp only [List.mem_cons, List.not_mem_nil, or_false, or_self] at hty'
  rwa [hty']

/-- On any other type it fails, without a change. -/
theorem Machine.ends_comparison_unreadable (hc : c = .eq ∨ c = .uneq)
    (hop : n.AppliesPrimitive m.primitives (BinaryOp.compare c).genericPrimitive)
    (hsite : (m.site fp n).Typed [ty, ty] [.bool]) (hoperand : n.inputs[0]? = some first)
    (hfirst : first.Supplies m.program.structs ty) (hread : ty.isReadable = false) :
    Ends (executeNode fp n) m (fun _ _ => False) (fun e m' =>
      m' = m ∧ (e.IsMismatch ↔ first.IsMet m.program.structs m.arena fp)) := by
  have hvalue : first.byReference = false ∧ first.HasTy m.program.structs ty := by
    rcases hfirst.cases with h | ⟨-, target, -, rfl⟩
    · exact h
    · cases hread
  have ho : (m.site fp n).operand 0 = .ok first := Site.operand_eq_ok hoperand
  rw [ends_performs hop.performs]
  simp only [Primitive.execute, BinaryOp.genericPrimitive, Body.run, ends_bind,
    Workspace.ends_look]
  apply (Site.gives_generic_of_unreadable hc hsite ho hvalue.2 hvalue.1 hread).mono
  · exact fun _ h => h.elim
  · exact fun e he => ⟨trivial, he⟩

end Execution

/-- A node that the layout has accepted compares two values of one type. A wrong type stops it if
and only if the type has no readable values and the first input is met; on such a type it never
yields an answer, and changes nothing. -/
theorem comparison_stopped_iff {m : Machine} {f : Function} {n : Node} {c : Comparison}
    (hc : c = .eq ∨ c = .uneq) (hf : m.program.Accepts f) (hn : n ∈ f.body)
    (hop : n.AppliesPrimitive m.primitives (BinaryOp.compare c).genericPrimitive) (fp : Nat) :
    ∃ first second result ty, n.inputs = [first, second] ∧ n.outputs = [result] ∧
      first.Supplies m.program.structs ty ∧ second.Supplies m.program.structs ty ∧
      result.HasTy m.program.structs .bool ∧
      ((∃ e m', Machine.executeNode fp n m = .error e m' ∧ e.IsMismatch) ↔
        ty.isReadable = false ∧ first.IsMet m.program.structs m.arena fp) ∧
      (ty.isReadable = false → ∃ e, Machine.executeNode fp n m = .error e m) := by
  obtain ⟨ty, htyped, hadmits⟩ := hf.comparison hn hop
  obtain ⟨first, rest, hfirst, hrest, hinputs⟩ := List.forall₂_cons_right_iff.mp htyped.inputs
  obtain ⟨second, rest', hsecond, hnil, rfl⟩ := List.forall₂_cons_right_iff.mp hrest
  obtain rfl := List.forall₂_nil_right_iff.mp hnil
  obtain ⟨result, rest'', hresult, hnil, houtputs⟩ := List.forall₂_cons_right_iff.mp htyped.outputs
  obtain rfl := List.forall₂_nil_right_iff.mp hnil
  refine ⟨first, second, result, ty, hinputs, houtputs, hfirst, hsecond, hresult, ?_⟩
  have hsite : (m.site fp n).Typed [ty, ty] [.bool] := ⟨htyped, hf.fields⟩
  cases hread : ty.isReadable with
  | true =>
    have hends := Machine.ends_comparison_readable hop hsite hadmits hread
    refine ⟨⟨?_, by simp⟩, by simp⟩
    rintro ⟨e, m', hrun, hmismatch⟩
    exact absurd hmismatch (hends.failure hrun).not_isMismatch
  | false =>
    have hoperand : n.inputs[0]? = some first := by rw [hinputs]; rfl
    have hends := Machine.ends_comparison_unreadable hc hop hsite hoperand hfirst hread
    obtain ⟨e, m', hrun, hsame, hmet⟩ := hends.exists_error
    rw [hsame] at hrun
    refine ⟨⟨?_, fun h => ⟨e, m, hrun, hmet.mpr h.2⟩⟩, fun _ => ⟨e, hrun⟩⟩
    rintro ⟨e', m', hrun', hmismatch⟩
    cases hrun.symm.trans hrun'
    exact ⟨rfl, hmet.mp hmismatch⟩

/-- A function that compares its two arguments. -/
def comparingDraft (ty : Ty) : FunctionDraft where
  package := "main"
  name := "same"
  params := [("a", ty), ("b", ty)]
  returns := [("r", .bool)]
  body := [{
    operator := some (.native 16 "und.eq" (BinaryOp.compare .eq).genericPrimitive.signature)
    inputs := [{ name := "a" }, { name := "b" }]
    outputs := [{ name := "r" }] }]

/-- A slot of the function, as its body names it. -/
def comparingOperand (name : String) (ty : Ty) (offset : Nat) : Operand :=
  { name, ty, storage := .frame offset, package := "main" }

def comparingNode (ty : Ty) (size : Nat) : Node where
  operator := some (.native 16 "und.eq" (BinaryOp.compare .eq).genericPrimitive.signature)
  inputs := [comparingOperand "a" ty 0, comparingOperand "b" ty size]
  outputs := [comparingOperand "r" .bool (size + size)]
  package := "main"

/-- The function, laid out for arguments of a size. -/
def comparingFunction (ty : Ty) (size : Nat) : Function where
  package := "main"
  name := "same"
  params := [{ comparingOperand "a" ty 0 with declared := true },
    { comparingOperand "b" ty size with declared := true }]
  returns := [{ comparingOperand "r" .bool (size + size) with declared := true }]
  body := [comparingNode ty size]
  frameSize := size + size + 1

/-- The slots of the function. -/
def comparingLayout (d : Draft) (ty : Ty) (size : Nat) : FrameLayout where
  package := "main"
  draft := d
  slots := [⟨"r", size + size, .bool⟩, ⟨"b", size, ty⟩, ⟨"a", 0, ty⟩]
  size := size + size + 1

theorem checkNode_comparingNode {d : Draft} {ty : Ty} {size : Nat} :
    (comparingLayout d ty size).checkNode 0 1 (comparingNode ty size) = .ok () := by
  have hty : ∀ name offset, (comparingLayout d ty size).inputTy (comparingOperand name ty offset) =
      .ok ty := fun _ _ => rfl
  have hinputs : ∀ op, (comparingLayout d ty size).checkInputs op 0 none
      (comparingNode ty size).inputs [.any, { Param.any with sameAsFirst := true }] =
        .ok (some ty) := by
    intro op
    refine bind_eq_ok.mpr ⟨ty, hty _ _, bind_eq_ok.mpr ⟨_, rfl, ?_⟩⟩
    change (if (true && ty != ty) = true then _ else Except.ok (some ty)) = _
    rw [bne_self_eq_false]
    rfl
  change (comparingLayout d ty size).checkSignature (.native 16 "und.eq" _)
    (BinaryOp.compare .eq).genericPrimitive.signature (comparingNode ty size) = .ok ()
  exact bind_eq_ok.mpr ⟨some ty, hinputs _, rfl⟩

/-- The layout accepts the comparison of two values of any type that has a size. -/
theorem layout_comparingDraft {d : Draft} {ty : Ty} {size : Nat} (hdefined : ty.isDefined = true)
    (hsize : ty.size d.structs = .ok size) :
    (comparingDraft ty).layout d = .ok (comparingFunction ty size) := by
  have hdeclare : ∀ (l : FrameLayout) (name : String), l.draft = d → l.slot? name = none →
      l.declare name ty =
        .ok (l.size, { l with slots := ⟨name, l.size, ty⟩ :: l.slots, size := l.size + size }) := by
    intro l name hdraft hslot
    simp only [FrameLayout.declare, hdefined, hslot]
    have hsize : ty.size l.structs = .ok size := by rwa [FrameLayout.structs, hdraft]
    exact bind_eq_ok.mpr ⟨size, hsize, rfl⟩
  have hparams : FrameLayout.declareBound { package := "main", draft := d } [("a", ty), ("b", ty)] =
      .ok ((comparingFunction ty size).params,
        ⟨"main", d, [⟨"b", size, ty⟩, ⟨"a", 0, ty⟩], size + size⟩) := by
    refine bind_eq_ok.mpr ⟨_, hdeclare _ "a" rfl rfl, ?_⟩
    refine bind_eq_ok.mpr ⟨(_, _), bind_eq_ok.mpr ⟨_, hdeclare _ "b" rfl rfl, rfl⟩, ?_⟩
    simp only [Nat.zero_add]
    rfl
  have hbody : (comparingLayout d ty size).finishBody 1 0 (comparingDraft ty).body =
      .ok [comparingNode ty size] := by
    refine bind_eq_ok.mpr ⟨comparingNode ty size, mapError_eq_ok.mpr ?_, rfl⟩
    exact bind_eq_ok.mpr ⟨_, rfl, bind_eq_ok.mpr ⟨(), checkNode_comparingNode, rfl⟩⟩
  refine bind_eq_ok.mpr ⟨_, hparams, ?_⟩
  refine bind_eq_ok.mpr ⟨(_, comparingLayout d ty size), rfl, bind_eq_ok.mpr ⟨_, rfl, ?_⟩⟩
  exact bind_eq_ok.mpr ⟨_, hbody, rfl⟩

/-- So a program may hold such a function for any sized type. -/
theorem accepts_comparingFunction {p : Program} {d : Draft} {ty : Ty} {size : Nat}
    (hd : d.Reachable) (hgrows : d.structs.Grows p.structs) (hfields : p.structs.SizedFields)
    (hglobals : ∀ g ∈ d.globals, g.ty.Sized p.structs) (hty : ty.Sized p.structs)
    (hsize : ty.size d.structs = .ok size) : p.Accepts (comparingFunction ty size) := by
  have hlayout := layout_comparingDraft hty.isDefined hsize
  refine ⟨⟨comparingDraft ty, d, hd, hlayout, ?_, hgrows, hglobals⟩, hfields⟩
  have hdeclared : (comparingDraft ty).declared = [("a", ty), ("b", ty), ("r", .bool)] := rfl
  have hoperands : (comparingDraft ty).operands =
      [{ name := "a" }, { name := "b" }, { name := "r" }] := rfl
  constructor
  · intro entry hentry
    simp only [hdeclared, List.mem_cons, List.not_mem_nil, or_false] at hentry
    rcases hentry with rfl | rfl | rfl
    · exact hty
    · exact hty
    · trivial
  · intro o ho hassigned
    simp only [hoperands, List.mem_cons, List.not_mem_nil, or_false] at ho
    rcases ho with rfl | rfl | rfl <;> exact absurd rfl hassigned

/-- A draft with a struct of two numbers. -/
def pointDraft : Draft where
  structs := { defs := [⟨"Point", [⟨"x", .i32, 0⟩, ⟨"y", .i32, 4⟩], 8⟩] }

/-- A machine in which two points are to be compared. -/
def pointMachine : Machine where
  program := {
    structs := pointDraft.structs
    data := pointDraft.data
    functions := [comparingFunction (.struct "Point") 8] }
  primitives := .standard
  options := {}
  work := {
    arena := {
      image := Array.replicate 32 0, stackStart := 8, stackEnd := 32, capacity := 32, limit := 32 }
    random := .ofSeed 0 }
  stack := { maxDepth := 1 }

theorem accepts_pointMachine :
    pointMachine.program.Accepts (comparingFunction (.struct "Point") 8) := by
  have hdefine : Draft.defineStruct {} "Point" [("x", .i32), ("y", .i32)] =
      .ok (⟨"Point", [⟨"x", .i32, 0⟩, ⟨"y", .i32, 4⟩], 8⟩, pointDraft) := rfl
  have hreachable : pointDraft.Reachable := .tail .refl (.defineStruct hdefine)
  have hfields : pointMachine.program.structs.SizedFields := by
    intro s hs field hfield
    obtain rfl := List.mem_singleton.mp hs
    simp only [List.mem_cons, List.not_mem_nil, or_false] at hfield
    rcases hfield with rfl | rfl <;> trivial
  have hsized : (Ty.struct "Point").Sized pointMachine.program.structs := ⟨_, rfl⟩
  exact accepts_comparingFunction hreachable .refl hfields nofun hsized rfl

/-- Points are accepted as inputs of `und.eq`, and comparing them is a type mismatch. -/
theorem exists_stopped_comparison : ∃ (m : Machine) (f : Function) (n : Node) (e : Error),
    m.primitives = .standard ∧ m.program.Accepts f ∧ n ∈ f.body ∧
      n.AppliesPrimitive m.primitives (BinaryOp.compare .eq).genericPrimitive ∧
      Machine.executeNode 8 n m = .error e m ∧ e.IsMismatch :=
  ⟨pointMachine, comparingFunction (.struct "Point") 8, comparingNode (.struct "Point") 8,
    .typeMismatch "und.eq" "a scalar, string or slice" "Point", rfl, accepts_pointMachine,
    List.mem_cons_self, ⟨16, rfl, rfl⟩, rfl, _, _, _, rfl⟩

theorem comparison_stopped_iff_pointMachine : ∃ e,
    Machine.executeNode 8 (comparingNode (.struct "Point") 8) pointMachine =
      .error e pointMachine ∧ e.IsMismatch := by
  obtain ⟨first, second, result, ty, hinputs, -, hfirst, -, -, hiff, hfails⟩ :=
    comparison_stopped_iff (.inl rfl) accepts_pointMachine List.mem_cons_self
      (⟨16, rfl, rfl⟩ : (comparingNode (.struct "Point") 8).AppliesPrimitive
        pointMachine.primitives (BinaryOp.compare .eq).genericPrimitive) 8
  cases hinputs
  cases hfirst.inputTy_eq
  obtain ⟨e, he⟩ := hfails rfl
  have hmet : (comparingOperand "a" (.struct "Point") 0).IsMet pointMachine.program.structs
      pointMachine.arena 8 := ⟨_, rfl, nofun⟩
  obtain ⟨e', m', hrun, hmismatch⟩ := hiff.mpr ⟨rfl, hmet⟩
  cases he.symm.trans hrun
  exact ⟨e, he, hmismatch⟩

end FlatMachine
