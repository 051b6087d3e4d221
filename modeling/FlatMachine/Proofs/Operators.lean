import FlatMachine.Proofs.Containment
import FlatMachine.Proofs.Sites

/-!
# Operators on values

At a site of the types that an operator is made for, its body stages what fits the outputs, and
fails for the values it meets only.
-/

namespace FlatMachine

open FlatMachine.Action

/-- What is computed at a site of such types fits the outputs. -/
def Compute.Serves (run : Compute) (ins outs : List Ty) : Prop :=
  ∀ s a, s.Typed ins outs → Gives (run s a) (fun slots => slots.Fit s.structs outs) Error.Dynamic

/-- What the body stages at a site of such types fits the outputs. -/
def Body.Serves (body : Body) (ins outs : List Ty) : Prop :=
  ∀ s w, s.Typed ins outs →
    Ends (body.run s) w (fun slots _ => slots.Fit s.structs outs) (fun e _ => e.Dynamic)

theorem Compute.Serves.body {run : Compute} {ins outs : List Ty} (h : Compute.Serves run ins outs) :
    (Body.compute run).Serves ins outs := by
  intro s w hs
  simp only [Body.run, Workspace.ends_look]
  exact h s w.arena hs

namespace BinaryOp

variable {op : BinaryOp} {ty : Ty} {run : Compute}

/-- The type of the result on inputs of a type. -/
def resultTy (op : BinaryOp) (ty : Ty) : Ty := if op.isComparison then .bool else ty

theorem gives_shiftCount {name : String} {k : IntKind} {y : BitVec k.bits} :
    Gives (shiftCount name k y) (fun _ => True) Error.Dynamic := by
  simp only [shiftCount, gives_ite, gives_error, gives_ok]
  exact ⟨fun _ => trivial, fun _ => trivial⟩

theorem gives_onInts {name : String} {k : IntKind} {x y : BitVec k.bits} :
    Gives (op.onInts name k x y) (fun v => v.ty? = some (op.resultTy (.int k))) Error.Dynamic := by
  cases op with
  | div | mod =>
    simp only [onInts, gives_ite, gives_error, gives_ok]
    exact ⟨fun _ => trivial, fun _ => rfl⟩
  | shl | shr =>
    simp only [onInts, gives_bind, gives_pure]
    exact gives_shiftCount.imp fun _ _ => rfl
  | _ => rfl

theorem serves_ints (k : IntKind) :
    Compute.Serves (op.ints k) [.int k, .int k] [op.resultTy (.int k)] := by
  intro s a hs
  simp only [ints, gives_bind]
  apply (hs.int rfl).imp
  intro x _
  apply (hs.int rfl).imp
  intro y _
  apply gives_onInts.imp
  intro v hv
  exact Site.gives_outputs (congrArg (· :: []) hv)

theorem serves_floats (k : FloatKind) (h : op.hasFloats = true) :
    Compute.Serves (op.floats k) [.float k, .float k] [op.resultTy (.float k)] := by
  intro s a hs
  simp only [floats, gives_bind]
  apply (hs.float rfl).imp
  intro x _
  apply (hs.float rfl).imp
  intro y _
  refine Site.gives_outputs ?_
  cases op <;> first | rfl | cases h

end BinaryOp

theorem serves_equality {ty : Ty} (expected : Bool) (h : ty.isReadable = true) :
    Compute.Serves (equality expected) [ty, ty] [.bool] := by
  intro s a hs
  simp only [equality, gives_bind]
  apply (hs.input rfl h).imp
  intro x _
  apply (hs.input rfl h).imp
  intro y _
  exact Site.gives_outputs rfl

theorem serves_ofInt {k : IntKind} {f : BitVec k.bits → Value} {ty : Ty}
    (h : ∀ word, (f word).ty? = some ty) :
    Compute.Serves (fun s a => do s.outputs [f (← s.int k a 0)]) [.int k] [ty] := by
  intro s a hs
  simp only [gives_bind]
  apply (hs.int rfl).imp
  intro word _
  exact Site.gives_outputs (congrArg (· :: []) (h word))

theorem serves_ofFloat {k : FloatKind} {f : BitVec k.bits → Value} {ty : Ty}
    (h : ∀ word, (f word).ty? = some ty) :
    Compute.Serves (fun s a => do s.outputs [f (← s.float k a 0)]) [.float k] [ty] := by
  intro s a hs
  simp only [gives_bind]
  apply (hs.float rfl).imp
  intro word _
  exact Site.gives_outputs (congrArg (· :: []) (h word))

theorem serves_ofStrs {f : String → String → Value} {ty : Ty}
    (h : ∀ front back, (f front back).ty? = some ty) :
    Compute.Serves (fun s a => do
      let front ← s.str a 0
      let back ← s.str a 1
      s.outputs [f front back]) [.str, .str] [ty] := by
  intro s a hs
  simp only [gives_bind]
  apply (hs.str rfl).imp
  intro front _
  apply (hs.str rfl).imp
  intro back _
  exact Site.gives_outputs (congrArg (· :: []) (h front back))

theorem serves_conjunction : Compute.Serves conjunction [.bool, .bool] [.bool] := by
  intro s a hs
  simp only [conjunction, gives_bind, gives_ite, gives_pure]
  apply (hs.bool rfl).imp
  intro b _
  refine ⟨fun _ => ?_, fun _ => Site.gives_outputs rfl⟩
  exact (hs.bool rfl).imp fun _ _ => Site.gives_outputs rfl

theorem serves_disjunction : Compute.Serves disjunction [.bool, .bool] [.bool] := by
  intro s a hs
  simp only [disjunction, gives_bind, gives_ite, gives_pure]
  apply (hs.bool rfl).imp
  intro b _
  refine ⟨fun _ => Site.gives_outputs rfl, fun _ => ?_⟩
  exact (hs.bool rfl).imp fun _ _ => Site.gives_outputs rfl

theorem serves_negation : Compute.Serves negation [.bool] [.bool] := by
  intro s a hs
  simp only [negation, gives_bind]
  exact (hs.bool rfl).imp fun _ _ => Site.gives_outputs rfl

namespace BinaryOp

variable {op : BinaryOp} {ty : Ty} {run : Compute}

theorem serves_typed (hread : ty.isReadable = true) (h : op.typed? ty = some run) :
    Compute.Serves run [ty, ty] [op.resultTy ty] := by
  unfold typed? at h
  split at h
  · cases h
    exact serves_ints _
  · split at h
    · rename_i hfloats
      cases h
      exact serves_floats _ hfloats
    · cases h
  · cases h
    exact serves_equality true hread
  · cases h
    exact serves_equality false hread
  · cases h
    exact serves_conjunction
  · cases h
    exact serves_disjunction
  · cases h

theorem serves_generic (hread : ty.isReadable = true) (h : (op.typed? ty).isSome = true) :
    Compute.Serves op.generic [ty, ty] [op.resultTy ty] := by
  intro s a hs
  obtain ⟨run, hrun⟩ := Option.isSome_iff_exists.mp h
  simp only [generic, gives_bind]
  apply (hs.inputTy rfl).imp
  intro ty' hty'
  subst ty'
  rw [hrun]
  exact serves_typed hread hrun s a hs

end BinaryOp

namespace Site

variable {s : Site} {a : Arena} {ins outs : List Ty} {i width : Nat} {elem : Ty}
  (h : s.Typed ins outs)
include h

theorem Typed.elementIndex (hi : ins[i]? = some .i32) :
    Gives (s.elementIndex a i) (fun _ => True) Error.Dynamic := by
  simp only [Site.elementIndex, gives_bind, gives_pure]
  exact h.int hi

theorem Typed.elementWidth {width : Nat} (hi : ins[0]? = some (.slice elem))
    (hwidth : elem.elementWidth = .ok width) :
    Gives (s.elementWidth a) (· = width) Error.Dynamic := by
  simp only [Site.elementWidth, gives_bind]
  apply (h.inputTy hi).imp
  intro ty hty
  subst ty
  simp only [hwidth, gives_ok]

end Site

namespace SliceOp

variable {elem : Ty} {width : Nat}

theorem serves_objectLength {ty : Ty} (h : ty.isHandle = true) :
    Compute.Serves Site.objectLength [ty] [.i32] := by
  intro s a hs
  simp only [Site.objectLength, gives_bind]
  apply (hs.inputHandle rfl h).imp
  intro handle _
  apply Arena.dynamic_objectLength.imp
  intro length _
  exact Site.dynamic_lengthValue.imp fun v hv => Site.gives_outputs (congrArg (· :: []) hv)

variable (hwidth : elem.elementWidth = .ok width)
include hwidth

theorem serves_append :
    (Body.act appendBody).Serves [.slice elem, elem] [.slice elem] := by
  intro s w hs
  simp only [Body.run, appendBody, ends_bind, Workspace.ends_look, Workspace.ends_onArena,
    ends_ofExcept]
  apply (hs.elementWidth rfl hwidth).imp
  intro width' _
  apply (hs.inputHandle rfl rfl).imp
  intro handle _
  apply (hs.inputBytes rfl).imp
  intro element _
  apply Arena.dynamic_appendElement.imp
  intro grown b _
  exact Site.gives_outputHandle rfl rfl

theorem serves_concat :
    (Body.act concatBody).Serves [.slice elem, .slice elem] [.slice elem] := by
  intro s w hs
  simp only [Body.run, concatBody, ends_bind, Workspace.ends_look, Workspace.ends_onArena,
    ends_ofExcept]
  apply (hs.elementWidth rfl hwidth).imp
  intro width' _
  apply (hs.inputHandle rfl rfl).imp
  intro first _
  apply (hs.inputHandle rfl rfl).imp
  intro second _
  apply Arena.dynamic_concatObjects.imp
  intro joined b _
  exact Site.gives_outputHandle rfl rfl

theorem serves_copy : (Body.act copyBody).Serves [.slice elem, .slice elem] [] := by
  intro s w hs
  simp only [Body.run, copyBody, ends_bind, Workspace.ends_look, Workspace.ends_onArena, ends_pure]
  apply (hs.elementWidth rfl hwidth).imp
  intro width' _
  apply (hs.inputHandle rfl rfl).imp
  intro dst _
  apply (hs.inputHandle rfl rfl).imp
  intro src _
  exact Arena.dynamic_copyElements.imp fun _ _ _ => Site.fit_noOutputs

theorem serves_read : Compute.Serves readBody [.slice elem, .i32] [elem] := by
  intro s a hs
  simp only [readBody, gives_bind]
  apply (hs.elementWidth rfl hwidth).imp
  intro width' hwidth'
  subst width'
  apply (hs.inputHandle rfl rfl).imp
  intro handle _
  apply (hs.elementIndex rfl).imp
  intro index _
  apply Arena.dynamic_elementOffset.imp
  intro offset _
  apply Arena.dynamic_read.imp
  intro bytes hlen
  apply Site.gives_stage Site.fit_noOutputs
  intro ty hty
  cases hty
  rw [Staged.Fits, hlen]
  exact Ty.size_of_elementWidth hwidth

theorem serves_write : (Body.act writeBody).Serves [.slice elem, .i32, elem] [] := by
  intro s w hs
  simp only [Body.run, writeBody, ends_bind, Workspace.ends_look, ends_ite, ends_throw,
    Workspace.ends_onArena, ends_update, ends_pure]
  apply (hs.elementWidth rfl hwidth).imp
  intro width' hwidth'
  subst width'
  apply (hs.inputHandle rfl rfl).imp
  intro handle _
  apply (hs.elementIndex rfl).imp
  intro index _
  apply (hs.inputBytes rfl).imp
  intro element helement
  have hlen : element.length = width :=
    Except.ok.inj (helement.symm.trans (Ty.size_of_elementWidth hwidth))
  refine ⟨fun hne => absurd hlen hne, fun _ => Arena.dynamic_elementOffset.imp fun offset _ => ?_⟩
  exact Arena.dynamic_write.imp fun _ _ => Site.fit_noOutputs

end SliceOp

theorem serves_draw (k : IntKind) : (Body.act (draw k)).Serves [.int k, .int k] [.int k] := by
  intro s w hs
  simp only [Body.run, draw, ends_bind, Workspace.ends_look, ends_ite, ends_throw, ends_ofExcept,
    ends_get, ends_set]
  apply (hs.int rfl).imp
  intro min _
  apply (hs.int rfl).imp
  intro max _
  refine ⟨fun _ => trivial, fun _ => ⟨fun _ => ?_, fun _ => ?_⟩⟩
  · exact Site.gives_outputs rfl
  · exact Site.gives_outputs rfl

end FlatMachine
