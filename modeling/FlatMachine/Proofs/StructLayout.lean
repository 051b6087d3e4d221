import FlatMachine.Proofs.StructTable
import Mathlib.Algebra.GroupWithZero.Nat
import Mathlib.Order.WellFounded

/-!
# Struct layouts

Whatever is defined, and whichever definitions are refused, the structs of a table are packed: the
fields lie one behind the other and fill the struct. A struct holds by value only structs that are
older, so no struct holds itself, and later definitions change no size.
-/

namespace FlatMachine

open FlatMachine.Action

namespace Ty

/-- The struct of which a value of the type holds values in place, directly or in arrays. -/
def embedded? : Ty → Option String
  | struct name => some name
  | array elem _ => elem.embedded?
  | _ => none

/-- The size of the type is known without the structs. -/
def isFixed : Ty → Bool
  | struct _ | undefined => false
  | array elem _ => elem.isFixed
  | _ => true

variable {t : StructTable} {ty : Ty} {n : Nat} {name : String}

theorem size_array_eq_ok {elem : Ty} {length : UInt32} : (array elem length).size t = .ok n ↔
    ∃ width, elem.size t = .ok width ∧ Size.mul? width length.toNat = some n := by
  rw [size, bind_eq_ok]
  apply exists_congr
  intro width
  apply and_congr_right
  intro _
  cases Size.mul? width length.toNat <;> simp

theorem size_of_fixedSize? (h : ty.fixedSize? = some n) : ty.size t = .ok n := by
  induction ty generalizing n with
  | array elem length ih =>
    obtain ⟨width, hwidth, hmul⟩ := Option.bind_eq_some_iff.mp h
    exact size_array_eq_ok.mpr ⟨width, ih hwidth, hmul⟩
  | undefined | struct => cases h
  | _ =>
    cases h
    rfl

theorem fixedSize?_of_size (hfixed : ty.isFixed = true) (h : ty.size t = .ok n) :
    ty.fixedSize? = some n := by
  induction ty generalizing n with
  | array elem length ih =>
    obtain ⟨width, hwidth, hmul⟩ := size_array_eq_ok.mp h
    exact Option.bind_eq_some_iff.mpr ⟨width, ih hfixed hwidth, hmul⟩
  | undefined | struct => cases hfixed
  | _ =>
    cases h
    rfl

/-- A type has a size only if the struct that it embeds is defined. -/
theorem has_of_size (h : ty.size t = .ok n) (hembeds : ty.embedded? = some name) :
    t.has name = true := by
  induction ty generalizing n with
  | array elem length ih =>
    obtain ⟨width, hwidth, -⟩ := size_array_eq_ok.mp h
    exact ih hwidth hembeds
  | struct inner =>
    cases hembeds
    obtain ⟨d, hget, -⟩ := bind_eq_ok.mp h
    rw [StructTable.has, StructTable.get_eq_ok.mp hget]
    rfl
  | _ => cases hembeds

end Ty

/-- The sizes of places that lie one behind the other add up to their offsets. -/
theorem Tiled.exists_sizes {t : StructTable} {start stop : Nat} {places : List (Nat × Ty)}
    (h : Tiled t start places stop) : ∃ sizes : List Nat,
      List.Forall₂ (fun place n => place.2.size t = .ok n) places sizes ∧
      stop = start + sizes.sum ∧
      ∀ i place, places[i]? = some place → place.1 = start + (sizes.take i).sum := by
  induction places generalizing start with
  | nil => exact ⟨[], .nil, h.symm, nofun⟩
  | cons place rest ih =>
    obtain ⟨hoffset, size, hsize, h⟩ := h
    obtain ⟨sizes, hsizes, hstop, hoffsets⟩ := ih h
    refine ⟨size :: sizes, .cons hsize hsizes, by rw [hstop, List.sum_cons, Nat.add_assoc], ?_⟩
    intro i found hfound
    cases i with
    | zero =>
      cases hfound
      exact hoffset
    | succ i => rw [hoffsets i found hfound, List.take_succ_cons, List.sum_cons, Nat.add_assoc]

namespace StructTable

variable {t u : StructTable} {name inner outer : String} {fields : List (String × Ty)}
  {d : StructDef}

/-! ## One definition -/

/-- The types have these sizes. -/
def Sizes (t : StructTable) (tys : List Ty) (sizes : List Nat) : Prop :=
  List.Forall₂ (fun ty n => ty.size t = .ok n) tys sizes

/-- The name is new, and the types of the fields have sizes whose sum is a size. -/
def Admits (t : StructTable) (name : String) (fields : List (String × Ty)) : Prop :=
  t.has name = false ∧ ∃ sizes, t.Sizes (fields.map (·.2)) sizes ∧ sizes.sum ≤ Size.max

theorem gives_place {start : Nat} (hstart : start ≤ Size.max) : Gives (t.place name start fields)
    (fun p => p.1.map (fun f => (f.name, f.ty)) = fields ∧
      ∃ sizes, t.Sizes (fields.map (·.2)) sizes ∧ start + sizes.sum ≤ Size.max)
    (fun _ => ¬ ∃ sizes, t.Sizes (fields.map (·.2)) sizes ∧ start + sizes.sum ≤ Size.max) := by
  induction fields generalizing start with
  | nil => exact ⟨rfl, [], .nil, hstart⟩
  | cons field rest ih =>
    obtain ⟨fieldName, ty⟩ := field
    unfold place
    cases hsize : ty.size t with
    | error e =>
      rintro ⟨_, hsizes, -⟩
      cases hsizes with
      | cons hhead _ =>
        rw [hsize] at hhead
        cases hhead
    | ok size =>
      cases hadd : Size.add? start size with
      | none =>
        simp only [gives_bind, gives_ok, hadd, gives_error]
        rintro ⟨_, hsizes, hsum⟩
        cases hsizes with
        | cons hhead _ =>
          cases hsize.symm.trans hhead
          rw [List.sum_cons] at hsum
          have hsome : Size.add? start size = some (start + size) :=
            Size.add?_eq_some_iff.mpr ⟨by omega, rfl⟩
          rw [hadd] at hsome
          cases hsome
      | some next =>
        obtain ⟨hle, rfl⟩ := Size.add?_eq_some_iff.mp hadd
        simp only [gives_bind, gives_pure, gives_ok, hadd]
        apply (ih hle).mono
        · rintro ⟨placed, total⟩ ⟨rfl, sizes, hsizes, hsum⟩
          refine ⟨rfl, size :: sizes, .cons hsize hsizes, ?_⟩
          rw [List.sum_cons]
          omega
        · rintro e hnot ⟨_, hsizes, hsum⟩
          cases hsizes with
          | @cons _ _ _ sizes hhead hrest =>
            cases hsize.symm.trans hhead
            rw [List.sum_cons] at hsum
            exact hnot ⟨sizes, hrest, by omega⟩

theorem gives_define : Gives (t.define name fields)
    (fun p => t.Admits name fields ∧ p.1.name = name ∧
      p.1.fields.map (fun f => (f.name, f.ty)) = fields ∧ p.2.defs = p.1 :: t.defs)
    (fun _ => ¬ t.Admits name fields) := by
  unfold define
  split
  · rename_i hhas
    rintro ⟨hnew, -⟩
    rw [hhas] at hnew
    cases hnew
  · rename_i hnew
    have hplace : Gives (t.place name 0 fields) _ _ := gives_place (Nat.zero_le Size.max)
    simp only [gives_bind, gives_pure, Nat.zero_add, true_and, and_true] at hplace ⊢
    apply hplace.mono
    · rintro ⟨placed, size⟩ ⟨hfields, hsizes⟩
      exact ⟨⟨Bool.eq_false_iff.mpr hnew, hsizes⟩, hfields⟩
    · exact fun e hnot hadmits => hnot hadmits.2

/-! ## Any definitions -/

/-- The table after a definition of a struct with fields, which may be refused. -/
def after (t : StructTable) (name : String) (fields : List (String × Ty)) : StructTable :=
  match advance (·.define name fields) t with
  | .ok _ u => u
  | .error _ u => u

/-- The table after definitions, some of which may be refused. -/
def afterAll (t : StructTable) (definitions : List (String × List (String × Ty))) : StructTable :=
  definitions.foldl (fun t (name, fields) => t.after name fields) t

theorem grows_after (t : StructTable) (name : String) (fields : List (String × Ty)) :
    Grows t (t.after name fields) := by
  cases hdefine : t.define name fields with
  | ok p =>
    simp only [after, advance, hdefine]
    exact .define .refl hdefine
  | error e =>
    simp only [after, advance, hdefine]
    exact .refl

theorem grows_afterAll (t : StructTable) (definitions : List (String × List (String × Ty))) :
    Grows t (t.afterAll definitions) := by
  induction definitions generalizing t with
  | nil => exact .refl
  | cons definition rest ih => exact (grows_after t definition.1 definition.2).trans (ih _)

/-- The fields lie one behind the other and fill the struct. -/
structure Packs (t : StructTable) (d : StructDef) (sizes : List Nat) : Prop where
  sizes_eq : t.Sizes (d.fields.map (·.ty)) sizes
  size_eq : d.size = sizes.sum
  offset_eq : ∀ i f, d.fields[i]? = some f → f.offset = (sizes.take i).sum
  apart : d.fields.Pairwise fun f g => ∀ n, f.ty.size t = .ok n → f.offset + n ≤ g.offset
  inside : ∀ f ∈ d.fields, ∀ n, f.ty.size t = .ok n → f.offset + n ≤ d.size

theorem exists_packs (h : Tiled t 0 (d.fields.map fun f => (f.offset, f.ty)) d.size) :
    ∃ sizes, t.Packs d sizes := by
  obtain ⟨sizes, hsizes, hsum, hoffsets⟩ := h.exists_sizes
  refine ⟨sizes, ?_, by rw [hsum, Nat.zero_add], ?_, List.pairwise_map.mp h.disjoint, ?_⟩
  · rw [List.forall₂_map_left_iff] at hsizes
    exact List.forall₂_map_left_iff.mpr hsizes
  · intro i f hf
    have hplace : (d.fields.map fun f => (f.offset, f.ty))[i]? = some (f.offset, f.ty) := by
      rw [List.getElem?_map, hf]
      rfl
    exact (hoffsets i _ hplace).trans (Nat.zero_add _)
  · intro f hf n hn
    obtain ⟨size, hsize, -, hle⟩ := h.inside (List.mem_map_of_mem hf)
    cases hsize.symm.trans hn
    exact hle

/-- Every definition of a table is the one that is found under its name. -/
theorem Grows.get_of_mem (h : Grows empty t) (hd : d ∈ t.defs) : t.get d.name = .ok d := by
  induction h with
  | refl => cases hd
  | @define u v name fields s hu hdefine ih =>
    obtain ⟨-, -, hdefs, -⟩ := define_eq_ok hdefine
    rw [hdefs] at hd
    rcases List.mem_cons.mp hd with rfl | hd
    · rw [get_eq_ok, StructTable.get?, hdefs, List.find?_cons, beq_self_eq_true]
    · exact Grows.get (.define .refl hdefine) (ih hd)

/-- What a struct embeds was defined before it. -/
theorem Grows.has_older (h : Grows empty t) {newer older : List StructDef}
    (hdefs : t.defs = newer ++ d :: older) {f : Field} (hf : f ∈ d.fields)
    (hembeds : f.ty.embedded? = some inner) : StructTable.has ⟨older⟩ inner = true := by
  induction h generalizing newer with
  | refl =>
    have hempty : ([] : List StructDef) = newer ++ d :: older := hdefs
    cases newer <;> cases hempty
  | @define u v name fields s hu hdefine ih =>
    obtain ⟨-, -, hadds, hplace⟩ := define_eq_ok hdefine
    rw [hadds] at hdefs
    cases newer with
    | nil =>
      obtain ⟨rfl, rfl⟩ := List.cons.inj hdefs
      have hmem : (f.offset, f.ty) ∈ s.fields.map fun f => (f.offset, f.ty) :=
        List.mem_map_of_mem hf
      obtain ⟨n, hsize, -⟩ := (place_tiled hplace).inside hmem
      exact Ty.has_of_size hsize hembeds
    | cons _ newer => exact ih (List.cons.inj hdefs).2

/-- A value of one struct holds values of the other in place. -/
def Embeds (t : StructTable) (outer inner : String) : Prop :=
  ∃ d f, t.get outer = .ok d ∧ f ∈ d.fields ∧ f.ty.embedded? = some inner

/-- How many structs were defined up to this one. -/
def age (t : StructTable) (name : String) : Nat := (t.defs.dropWhile (·.name != name)).length

theorem age_le (t : StructTable) (name : String) : t.age name ≤ t.defs.length :=
  (List.dropWhile_suffix _).length_le

theorem age_define (hdefs : u.defs = d :: t.defs) (name : String) :
    u.age name = if d.name = name then t.defs.length + 1 else t.age name := by
  unfold age
  rw [hdefs, List.dropWhile_cons]
  by_cases hname : d.name = name <;> simp [hname]

/-- A struct is older than those that embed it. -/
theorem Grows.age_lt (h : Grows empty t) (hembeds : t.Embeds outer inner) :
    t.age inner < t.age outer := by
  induction h with
  | refl =>
    obtain ⟨d, f, hget, -⟩ := hembeds
    cases hget
  | @define u v name fields s hu hdefine ih =>
    obtain ⟨hnew, rfl, hdefs, hplace⟩ := define_eq_ok hdefine
    obtain ⟨d, f, hget, hf, hinner⟩ := hembeds
    have hmem : (f.offset, f.ty) ∈ d.fields.map fun f => (f.offset, f.ty) := List.mem_map_of_mem hf
    -- What is embedded was there before the new struct, so the new struct is not what is embedded.
    have hold : u.has inner = true → v.age inner = u.age inner := by
      intro hhas
      rw [age_define hdefs, if_neg]
      rintro rfl
      rw [has, hnew] at hhas
      cases hhas
    by_cases houter : s.name = outer
    · have hfound : (s.name == outer) = true := beq_iff_eq.mpr houter
      rw [get_eq_ok, StructTable.get?, hdefs, List.find?_cons, hfound] at hget
      cases hget
      obtain ⟨n, hsize, -⟩ := (place_tiled hplace).inside hmem
      rw [hold (Ty.has_of_size hsize hinner), age_define hdefs, if_pos houter]
      exact Nat.lt_succ_of_le (u.age_le inner)
    · have hpassed : (s.name == outer) = false := beq_eq_false_iff_ne.mpr houter
      rw [get_eq_ok, StructTable.get?, hdefs, List.find?_cons, hpassed] at hget
      have hget : u.get outer = .ok d := get_eq_ok.mpr hget
      obtain ⟨n, hsize, -⟩ := (hu.packed outer d hget).inside hmem
      rw [hold (Ty.has_of_size hsize hinner), age_define hdefs, if_neg houter]
      exact ih ⟨d, f, hget, hf, hinner⟩

theorem Grows.wellFounded (h : Grows empty t) :
    WellFounded fun inner outer => t.Embeds outer inner :=
  Subrelation.wf h.age_lt (measure t.age).wf

end StructTable

/-- After any definitions, of which some may have been refused, the fields of every struct lie one
behind the other and fill it; what a struct embeds was defined before it, so that embedding is well
founded; no size that a type has changes with later definitions; the next definition is made if its
name is new and its fields have sizes that add up to a size, and otherwise nothing changes; and the
sizes that are known without the table are those that it gives. -/
theorem struct_layouts_sound (definitions : List (String × List (String × Ty))) :
    let t := StructTable.afterAll .empty definitions
    (∀ d ∈ t.defs, t.get d.name = .ok d ∧ ∃ sizes, t.Packs d sizes) ∧
    (∀ newer d older, t.defs = newer ++ d :: older → ∀ f ∈ d.fields, ∀ inner,
      f.ty.embedded? = some inner → StructTable.has ⟨older⟩ inner = true) ∧
    (WellFounded fun inner outer => t.Embeds outer inner) ∧
    (∀ later (ty : Ty) n, ty.size t = .ok n → ty.size (t.afterAll later) = .ok n) ∧
    (∀ name fields, Ends (advance (·.define name fields)) t
      (fun d u => t.Admits name fields ∧ d.name = name ∧
        d.fields.map (fun f => (f.name, f.ty)) = fields ∧ u.defs = d :: t.defs)
      (fun _ u => u = t ∧ ¬ t.Admits name fields)) ∧
    ∀ (ty : Ty) n, (ty.fixedSize? = some n → ty.size t = .ok n) ∧
      (ty.isFixed = true → ty.size t = .ok n → ty.fixedSize? = some n) := by
  intro t
  have hgrows : StructTable.Grows .empty t := StructTable.grows_afterAll .empty definitions
  refine ⟨fun d hd => ?_, ?_, hgrows.wellFounded, ?_, fun name fields => ?_, fun ty n => ?_⟩
  · have hget := hgrows.get_of_mem hd
    exact ⟨hget, StructTable.exists_packs (hgrows.packed d.name d hget)⟩
  · exact fun newer d older hdefs f hf inner => hgrows.has_older hdefs hf
  · exact fun later ty n hsize => (t.grows_afterAll later).size hsize
  · simp only [ends_advance, true_and]
    exact StructTable.gives_define
  · exact ⟨Ty.size_of_fixedSize?, Ty.fixedSize?_of_size⟩

end FlatMachine
