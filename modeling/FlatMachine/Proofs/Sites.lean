import FlatMachine.Native.Commit
import FlatMachine.Proofs.Typing

/-!
# Typed sites

At a site whose inputs and outputs have types, an operator that asks for inputs as their types
allow is not told that a type is wrong, and outputs staged as their types demand are committed.
-/

namespace FlatMachine

open FlatMachine.Action

/-- The inputs and outputs of the node have these types. -/
structure Node.Typed (t : StructTable) (n : Node) (ins outs : List Ty) : Prop where
  inputs : List.Forall₂ (Operand.Supplies t) n.inputs ins
  outputs : List.Forall₂ (Operand.HasTy t) n.outputs outs

/-- What is staged suits a place of the type. -/
def Staged.Fits (t : StructTable) (ty : Ty) : Staged → Prop
  | .value v => v.ty? = some ty
  | .bytes content => ty.size t = .ok content.length

/-- Whatever is staged suits the output that it is staged for. -/
def Slots.Fit (t : StructTable) (outs : List Ty) (slots : Slots) : Prop :=
  ∀ (i : Nat) (staged : Staged) (ty : Ty),
    slots[i]? = some (some staged) → outs[i]? = some ty → staged.Fits t ty

namespace Site

/-- The node's inputs and outputs have these types, and so have the fields of structs. -/
structure Typed (s : Site) (ins outs : List Ty) : Prop
    extends Node.Typed s.structs s.node ins outs where
  fields : s.structs.SizedFields

variable {s : Site} {a : Arena} {ins outs : List Ty} {i : Nat} {ty elem : Ty}

section Inputs

variable (h : s.Typed ins outs) (hi : ins[i]? = some ty)
include h hi

theorem Typed.operand : ∃ o, s.operand i = .ok o ∧ o.Supplies s.structs ty := by
  obtain ⟨o, ho, hty⟩ := exists_getElem?_of_forall₂ h.inputs hi
  refine ⟨o, ?_, hty⟩
  rw [Site.operand, ho]

theorem Typed.inputTy : Gives (s.inputTy a i) (· = ty) Error.Dynamic := by
  obtain ⟨o, ho, hty⟩ := h.operand hi
  simp only [Site.inputTy, ho, gives_bind, gives_ok, gives_pure]
  rcases hty.cases with ⟨hvalue, hty⟩ | ⟨hreference, target, htarget, rfl⟩
  · apply (hty.gives_place h.fields).imp
    intro place hplace
    rw [if_neg (by simp [hvalue]), hplace.1]
  · apply (htarget.gives_place h.fields).imp
    intro place hplace
    rw [if_pos hreference, hplace.1]

theorem Typed.inputBytes :
    Gives (s.inputBytes a i) (fun bytes => ty.size s.structs = .ok bytes.length)
      Error.Dynamic := by
  obtain ⟨o, ho, hty⟩ := h.operand hi
  simp only [Site.inputBytes, ho, gives_bind, gives_ok]
  exact hty.gives_bytes h.fields

theorem Typed.inputHandle (hhandle : ty.isHandle = true) :
    Gives (s.inputHandle a i) (fun _ => True) Error.Dynamic := by
  simp only [Site.inputHandle, gives_bind, gives_ite, gives_error]
  apply (h.inputTy hi).imp
  intro ty' hty'
  subst ty'
  refine ⟨fun _ => ?_, fun hnot => absurd hhandle hnot⟩
  apply (h.inputBytes hi).imp
  intro bytes hbytes
  have hlen : Ty.handleWidth = bytes.length := by
    cases ty <;> first | exact Except.ok.inj hbytes | cases hhandle
  simp only [takeWord, hlen, le_refl, if_true, gives_ok]

theorem Typed.input (hread : ty.isReadable = true) :
    Gives (s.input a i) (fun v => ty.isScalar = true ∨ ty = .str → v.ty? = some ty)
      Error.Dynamic := by
  obtain ⟨o, ho, hty⟩ := h.operand hi
  simp only [Site.input, ho, gives_bind, gives_ok, gives_ite, gives_pure]
  rcases hty.cases with ⟨hvalue, hty⟩ | ⟨hreference, target, htarget, rfl⟩
  · apply (hty.gives_place h.fields).imp
    intro place hplace
    obtain ⟨hplaceTy, hsize⟩ := hplace
    rw [hplaceTy]
    refine ⟨fun hreference => absurd hreference (by simp [hvalue]), fun _ => ?_⟩
    have hword : ∀ {width}, ty.wordWidth? = some width →
        Gives (a.read place.offset place.size >>= ty.decode)
          (fun v => ty.isScalar = true ∨ ty = .str → v.ty? = some ty) Error.Dynamic := by
      intro width hwidth
      cases (Ty.size_of_wordWidth? hwidth).symm.trans hsize
      exact Arena.gives_readWord hwidth
    cases ty with
    | str =>
      simp only [gives_bind]
      apply Arena.dynamic_readHandle.imp
      intro handle _
      exact (Arena.dynamic_readObject (.inl rfl) hread).imp fun v hv _ => hv rfl
    | slice elem =>
      simp only [gives_bind]
      apply Arena.dynamic_readHandle.imp
      intro handle _
      exact (Arena.dynamic_readObject (.inr ⟨elem, rfl⟩) hread).imp fun v _ => by simp [Ty.isScalar]
    | undefined => cases hread
    | array elem length => cases hread
    | struct name => cases hread
    | bool => exact hword rfl
    | int kind => exact hword rfl
    | float kind => exact hword rfl
    | pointer target => exact hword rfl
  · apply (htarget.gives_place h.fields).imp
    intro place _
    refine ⟨fun _ => ?_, fun hvalue => absurd hreference hvalue⟩
    rintro (hscalar | hstr)
    · cases hscalar
    · cases hstr

end Inputs

section Reading

variable (h : s.Typed ins outs)
include h

theorem Typed.int {k : IntKind} (hi : ins[i]? = some (.int k)) :
    Gives (s.int k a i) (fun _ => True) Error.Dynamic := by
  simp only [Site.int, gives_bind]
  apply (h.input hi rfl).imp
  intro v hv
  obtain ⟨word, rfl⟩ := Value.eq_int (hv (.inl rfl))
  simp only [dite_true, gives_pure]

theorem Typed.float {k : FloatKind} (hi : ins[i]? = some (.float k)) :
    Gives (s.float k a i) (fun _ => True) Error.Dynamic := by
  simp only [Site.float, gives_bind]
  apply (h.input hi rfl).imp
  intro v hv
  have hty := hv (.inl rfl)
  cases v <;> cases hty
  simp only [dite_true, gives_pure]

theorem Typed.bool (hi : ins[i]? = some .bool) :
    Gives (s.bool a i) (fun _ => True) Error.Dynamic := by
  simp only [Site.bool, gives_bind]
  apply (h.input hi rfl).imp
  intro v hv
  have hty := hv (.inl rfl)
  cases v <;> cases hty
  trivial

theorem Typed.str (hi : ins[i]? = some .str) :
    Gives (s.str a i) (fun _ => True) Error.Dynamic := by
  simp only [Site.str, gives_bind]
  apply (h.input hi rfl).imp
  intro v hv
  have hty := hv (.inr rfl)
  cases v <;> cases hty
  trivial

end Reading

section Staging

variable {slots : Slots} {t : StructTable}

theorem fit_noOutputs : s.noOutputs.Fit t outs := by
  intro i staged ty hslot _
  have hmem : some staged ∈ s.noOutputs := List.mem_of_getElem? hslot
  cases List.eq_of_mem_replicate hmem

theorem gives_stage {staged : Staged} (hslots : slots.Fit t outs)
    (hstaged : ∀ ty, outs[i]? = some ty → staged.Fits t ty) :
    Gives (s.stage slots i staged) (fun slots => slots.Fit t outs) Error.Dynamic := by
  simp only [Site.stage, gives_ite, gives_ok, gives_error]
  refine ⟨fun _ => ?_, fun _ => trivial⟩
  intro j staged' ty hslot hty
  by_cases hj : i = j
  · subst j
    rw [List.getElem?_set_self (by assumption)] at hslot
    cases hslot
    exact hstaged ty hty
  · rw [List.getElem?_set_ne hj] at hslot
    exact hslots j staged' ty hslot hty

theorem gives_stageFrom {values : List Value} (hslots : slots.Fit t outs)
    (hvalues : values.map (·.ty?) = (outs.drop i).map some) :
    Gives (s.stageFrom slots i values) (fun slots => slots.Fit t outs) Error.Dynamic := by
  induction values generalizing slots i with
  | nil => exact hslots
  | cons v rest ih =>
    simp only [Site.stageFrom, gives_bind]
    have hi : i < outs.length := by
      have hlen := congrArg List.length hvalues
      simp only [List.map_cons, List.length_cons, List.length_map, List.length_drop] at hlen
      omega
    rw [List.drop_eq_getElem_cons hi, List.map_cons, List.map_cons] at hvalues
    obtain ⟨hv, hrest⟩ := List.cons.inj hvalues
    have hstaged : ∀ ty, outs[i]? = some ty → (Staged.value v).Fits t ty := by
      intro ty hty
      rw [List.getElem?_eq_getElem hi] at hty
      exact hv.trans hty
    exact (gives_stage hslots hstaged).imp fun slots hslots => ih hslots hrest

theorem gives_outputs {values : List Value} (h : values.map (·.ty?) = outs.map some) :
    Gives (s.outputs values) (fun slots => slots.Fit t outs) Error.Dynamic :=
  gives_stageFrom fit_noOutputs h

theorem gives_outputHandle {handle : Nat} (hty : ty.isHandle = true) (hout : outs[0]? = some ty) :
    Gives (s.outputHandle handle) (fun slots => slots.Fit t outs) Error.Dynamic := by
  simp only [outputHandle, gives_bind]
  apply Arena.dynamic_encodeHandle.imp
  intro bytes hlen
  apply gives_stage fit_noOutputs
  intro ty' hty'
  cases hout.symm.trans hty'
  have hsize : ty.size t = .ok Ty.handleWidth := by
    cases ty <;> first | rfl | cases hty
  rw [Staged.Fits, hsize, hlen]

theorem dynamic_lengthValue {length : Nat} :
    Gives (s.lengthValue length) (fun v => v.ty? = some .i32) Error.Dynamic := by
  simp only [lengthValue, gives_ite, gives_ok, gives_error]
  exact ⟨fun _ => rfl, fun _ => trivial⟩

end Staging

section Committing

variable {slots : Slots} {o : Operand} {staged : Staged}

theorem gives_ofStaged {place : Place} {t : StructTable} (hsize : place.ty.size t = .ok place.size)
    (h : staged.Fits t place.ty) :
    Gives (Pending.ofStaged place staged) (fun pending => pending.width = place.size)
      Error.Dynamic := by
  cases staged with
  | bytes content => exact Except.ok.inj (h.symm.trans hsize)
  | value v =>
    simp only [Pending.ofStaged, gives_bind]
    apply (Value.gives_encode h).imp
    intro encoded hencoded
    have hword : place.ty.isScalar = true → encoded.length = place.size := fun hscalar =>
      Except.ok.inj ((Ty.size_of_wordWidth? (hencoded hscalar)).symm.trans hsize)
    have hty : v.ty? = some place.ty := h
    generalize place.ty = ty at hty hsize hword
    cases v with
    | str text =>
      cases hty
      exact Except.ok.inj hsize
    | bool b =>
      cases hty
      exact hword rfl
    | int kind word =>
      cases hty
      exact hword rfl
    | float kind word =>
      cases hty
      exact hword rfl
    | slice items => cases hty
    | pointer offset => cases hty

theorem gives_prepare {ty : Ty} (hfields : s.structs.SizedFields) (ho : o.HasTy s.structs ty)
    (h : staged.Fits s.structs ty) :
    Gives (s.prepare a o staged) (fun _ => True) Error.Dynamic := by
  simp only [prepare, gives_bind, gives_ite, gives_pure, gives_error]
  apply (ho.gives_place hfields).imp
  intro place hplace
  obtain ⟨rfl, hsize⟩ := hplace
  apply (gives_ofStaged hsize h).imp
  intro pending hwidth
  exact ⟨fun _ => trivial, fun hne => absurd hwidth hne⟩

theorem gives_prepareAll {os : List Operand} (hfields : s.structs.SizedFields)
    (hos : List.Forall₂ (Operand.HasTy s.structs) os outs) (h : slots.Fit s.structs outs) :
    Gives (s.prepareAll a os slots) (fun _ => True) Error.Dynamic := by
  induction hos generalizing slots with
  | nil => cases slots <;> trivial
  | cons ho _ ih =>
    cases slots with
    | nil => trivial
    | cons slot slots =>
      have hrest : Slots.Fit s.structs _ slots := fun i staged ty hslot hty =>
        h (i + 1) staged ty hslot hty
      cases slot with
      | none => exact ih hrest
      | some staged =>
        simp only [prepareAll, gives_bind, gives_pure]
        apply (gives_prepare hfields ho (h 0 staged _ rfl rfl)).imp
        intro pending _
        exact ih hrest

theorem dynamic_settle (pending : Pending) :
    Ends pending.settle a (fun _ _ => True) (fun e _ => e.Dynamic) := by
  cases pending with
  | bytes offset content => trivial
  | object offset content =>
    simp only [Pending.settle, ends_bind, ends_ofExcept, ends_pure]
    apply Arena.dynamic_store.imp
    intro handle b _
    exact Arena.dynamic_encodeHandle.imp fun _ _ => trivial

theorem dynamic_settleAll (pending : List Pending) :
    Ends (Pending.settleAll pending) a (fun _ _ => True) (fun e _ => e.Dynamic) := by
  induction pending generalizing a with
  | nil => trivial
  | cons p rest ih =>
    simp only [Pending.settleAll, ends_bind, ends_pure]
    exact (dynamic_settle p).imp fun _ _ _ => ih

theorem dynamic_writeAll (writes : List (Nat × Bytes)) :
    Ends (writeAll writes) a (fun _ _ => True) (fun e _ => e.Dynamic) := by
  induction writes generalizing a with
  | nil => trivial
  | cons w rest ih =>
    simp only [writeAll, ends_bind, ends_update]
    exact Arena.dynamic_write.imp fun _ _ => ih

/-- What fits the outputs can be committed. -/
theorem Typed.ends_commit (h : s.Typed ins outs) (hslots : slots.Fit s.structs outs) :
    Ends (s.commit slots) a (fun _ _ => True) (fun e _ => e.Dynamic) := by
  simp only [commit, ends_bind, ends_query]
  apply (gives_prepareAll h.fields h.outputs hslots).imp
  intro pending _
  exact (dynamic_settleAll pending).imp fun writes _ _ => dynamic_writeAll writes

end Committing

end Site

end FlatMachine
