import FlatMachine.Code.Program
import FlatMachine.Proofs.StructTable
import Mathlib.Logic.Relation

/-!
# The history of a draft

Whatever is done to a draft, its struct table only grows and its globals stay where they are.
-/

namespace FlatMachine

namespace Draft

/-- One operation on a draft. A literal that cannot be stored still uses up its name. -/
inductive Step (d : Draft) : Draft → Prop where
  | defineStruct {d' name fields s} (h : d.defineStruct name fields = .ok (s, d')) : Step d d'
  | addGlobal {d' package name ty o} (h : d.addGlobal package name ty = .ok (o, d')) : Step d d'
  | addLiteral {d' value ty o} (h : addLiteral value ty d = .ok o d') : Step d d'
  | failLiteral {d' value ty e} (h : addLiteral value ty d = .error e d') : Step d d'
  | declareFunction (f : FunctionName) (signature : Signature) : Step d (d.declareFunction f signature)
  | addFunction (f : Function) : Step d (d.addFunction f)

/-- The second draft was made from the first. -/
def Grows (d d' : Draft) : Prop := Relation.ReflTransGen Step d d'

/-- The draft was made from the empty one. -/
def Reachable (d : Draft) : Prop := Grows {} d

/-- A global is named without accesses, lies in the data segment and has a size. -/
def IsGlobal (structs : StructTable) (o : Operand) : Prop :=
  o.chain = [] ∧ (∃ offset, o.storage = .global offset) ∧ ∃ size, o.ty.size structs = .ok size

variable {d d' : Draft}

theorem addLiteral_same {value : Value} {ty : Ty} :
    Action.Ends (addLiteral value ty) d
      (fun _ d' => d'.structs = d.structs ∧ d'.globals = d.globals)
      (fun _ d' => d'.structs = d.structs ∧ d'.globals = d.globals) := by
  unfold Action.Ends addLiteral
  dsimp only
  split <;> rename_i heq <;> split at heq <;> cases heq <;> exact ⟨rfl, rfl⟩

theorem Step.structs (h : Step d d') : d.structs.Grows d'.structs := by
  cases h with
  | defineStruct h =>
    obtain ⟨⟨s, structs⟩, hdefine, h⟩ := bind_eq_ok.mp h
    cases h
    exact .define .refl hdefine
  | addGlobal h =>
    obtain ⟨size, -, h⟩ := bind_eq_ok.mp h
    cases h
    exact .refl
  | addLiteral h =>
    rw [(addLiteral_same.value h).1]
    exact .refl
  | failLiteral h =>
    rw [(addLiteral_same.failure h).1]
    exact .refl
  | declareFunction => exact .refl
  | addFunction => exact .refl

theorem IsGlobal.grows {t u : StructTable} {o : Operand} (h : IsGlobal t o) (hgrows : t.Grows u) :
    IsGlobal u o := by
  obtain ⟨hchain, hstorage, size, hsize⟩ := h
  exact ⟨hchain, hstorage, size, hgrows.size hsize⟩

theorem Step.isGlobal (h : Step d d') (hall : ∀ o ∈ d.globals, IsGlobal d.structs o) :
    ∀ o ∈ d'.globals, IsGlobal d'.structs o := by
  have hkept : ∀ o ∈ d.globals, IsGlobal d'.structs o := fun o ho => (hall o ho).grows h.structs
  cases h with
  | defineStruct h =>
    obtain ⟨⟨s, structs⟩, -, h⟩ := bind_eq_ok.mp h
    cases h
    exact hkept
  | addGlobal h =>
    obtain ⟨size, hsize, h⟩ := bind_eq_ok.mp h
    cases h
    exact List.forall_mem_cons.mpr ⟨⟨rfl, ⟨_, rfl⟩, size, hsize⟩, hkept⟩
  | addLiteral h =>
    rw [(addLiteral_same.value h).2]
    exact hkept
  | failLiteral h =>
    rw [(addLiteral_same.failure h).2]
    exact hkept
  | declareFunction => exact hkept
  | addFunction => exact hkept

theorem Grows.structs (h : Grows d d') : d.structs.Grows d'.structs := by
  induction h with
  | refl => exact .refl
  | tail _ hstep ih => exact ih.trans hstep.structs

theorem Step.globals_subset (h : Step d d') : d.globals ⊆ d'.globals := by
  cases h with
  | defineStruct h =>
    obtain ⟨⟨s, structs⟩, -, h⟩ := bind_eq_ok.mp h
    cases h
    exact List.Subset.refl _
  | addGlobal h =>
    obtain ⟨size, -, h⟩ := bind_eq_ok.mp h
    cases h
    exact List.subset_cons_self _ _
  | addLiteral h => exact (addLiteral_same.value h).2 ▸ List.Subset.refl _
  | failLiteral h => exact (addLiteral_same.failure h).2 ▸ List.Subset.refl _
  | declareFunction => exact List.Subset.refl _
  | addFunction => exact List.Subset.refl _

theorem Grows.globals_subset (h : Grows d d') : d.globals ⊆ d'.globals := by
  induction h with
  | refl => exact List.Subset.refl _
  | tail _ hstep ih => exact List.Subset.trans ih hstep.globals_subset

theorem Reachable.packed (h : d.Reachable) : d.structs.Packed :=
  StructTable.Grows.packed (Grows.structs h)

theorem Reachable.isGlobal (h : d.Reachable) : ∀ o ∈ d.globals, IsGlobal d.structs o := by
  induction h with
  | refl => exact nofun
  | tail _ hstep ih => exact hstep.isGlobal ih

end Draft

end FlatMachine
