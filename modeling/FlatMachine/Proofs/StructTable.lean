import FlatMachine.Proofs.Postcondition
import FlatMachine.StructTable

/-!
# Growing struct tables

A table only grows, by definitions of new names. So a field that was found once is found again,
and a size that was computed once stays what it is. In a table that grew from the empty one the
fields of every struct tile it.
-/

namespace FlatMachine

/-- Places of types lie one behind the other from `start` to `stop`. -/
def Tiled (t : StructTable) : Nat → List (Nat × Ty) → Nat → Prop
  | start, [], stop => start = stop
  | start, (offset, ty) :: rest, stop =>
    offset = start ∧ ∃ size, ty.size t = .ok size ∧ Tiled t (start + size) rest stop

namespace Tiled

variable {t : StructTable} {start middle stop offset size : Nat} {ty : Ty}
  {places rest : List (Nat × Ty)}

theorem le (h : Tiled t start places stop) : start ≤ stop := by
  induction places generalizing start with
  | nil => exact h.le
  | cons place rest ih =>
    obtain ⟨-, size, -, h⟩ := h
    exact (Nat.le_add_right _ _).trans (ih h)

theorem append (h : Tiled t start places middle) (h' : Tiled t middle rest stop) :
    Tiled t start (places ++ rest) stop := by
  induction places generalizing start with
  | nil => exact h ▸ h'
  | cons place places ih =>
    obtain ⟨hoffset, size, hsize, h⟩ := h
    exact ⟨hoffset, size, hsize, ih h⟩

theorem snoc (h : Tiled t start places stop) (hsize : ty.size t = .ok size) :
    Tiled t start (places ++ [(stop, ty)]) (stop + size) :=
  h.append ⟨rfl, size, hsize, rfl⟩

/-- Every place lies inside. -/
theorem inside (h : Tiled t start places stop) (hmem : (offset, ty) ∈ places) :
    ∃ size, ty.size t = .ok size ∧ start ≤ offset ∧ offset + size ≤ stop := by
  induction places generalizing start with
  | nil => cases hmem
  | cons place rest ih =>
    obtain ⟨hoffset, size, hsize, h⟩ := h
    rcases List.mem_cons.mp hmem with rfl | hmem
    · obtain rfl : offset = start := hoffset
      exact ⟨size, hsize, le_rfl, h.le⟩
    · obtain ⟨size', hsize', hle, hstop⟩ := ih h hmem
      exact ⟨size', hsize', (Nat.le_add_right _ _).trans hle, hstop⟩

theorem disjoint (h : Tiled t start places stop) :
    places.Pairwise fun p q => ∀ size, p.2.size t = .ok size → p.1 + size ≤ q.1 := by
  induction places generalizing start with
  | nil => exact .nil
  | cons place rest ih =>
    obtain ⟨hoffset, size, hsize, h⟩ := h
    refine .cons (fun q hq size' hsize' => ?_) (ih h)
    obtain ⟨-, -, hle, -⟩ := h.inside hq
    cases hsize.symm.trans hsize'
    exact hoffset ▸ hle

end Tiled

namespace StructTable

variable {t u : StructTable} {name key : String} {d : StructDef} {f : Field}

/-- The second table was made from the first by definitions. -/
inductive Grows (t : StructTable) : StructTable → Prop where
  | refl : Grows t t
  | define {u v : StructTable} {name : String} {fields : List (String × Ty)} {d : StructDef}
      (h : Grows t u) (hdefine : u.define name fields = .ok (d, v)) : Grows t v

theorem Grows.trans {v : StructTable} (h : Grows t u) (h' : Grows u v) : Grows t v := by
  induction h' with
  | refl => exact h
  | define _ hdefine ih => exact .define ih hdefine

/-- A definition adds a new name, with its fields placed from 0 on. -/
theorem define_eq_ok {fields : List (String × Ty)} (h : t.define name fields = .ok (d, u)) :
    t.get? name = none ∧ d.name = name ∧ u.defs = d :: t.defs ∧
      t.place name 0 fields = .ok (d.fields, d.size) := by
  unfold define at h
  split at h
  · cases h
  · rename_i hhas
    obtain ⟨⟨placed, size⟩, hplace, h⟩ := bind_eq_ok.mp h
    cases h
    exact ⟨by simpa [has] using hhas, rfl, rfl, hplace⟩

theorem Grows.get? (h : Grows t u) (hget : t.get? name = some d) : u.get? name = some d := by
  induction h with
  | refl => exact hget
  | @define u v new fields s _ hdefine ih =>
    obtain ⟨hnew, rfl, hdefs, -⟩ := define_eq_ok hdefine
    have hne : s.name ≠ name := by
      rintro rfl
      rw [ih] at hnew
      cases hnew
    unfold StructTable.get?
    rw [hdefs, List.find?_cons_of_neg (by simpa using hne)]
    exact ih

theorem get_eq_ok : t.get name = .ok d ↔ t.get? name = some d := by
  unfold get
  cases t.get? name <;> simp

theorem Grows.get (h : Grows t u) (hget : t.get name = .ok d) : u.get name = .ok d :=
  get_eq_ok.mpr (h.get? (get_eq_ok.mp hget))

theorem field_eq_ok : t.field name key = .ok f ↔
    ∃ d, t.get name = .ok d ∧ d.fields.find? (·.name == key) = some f := by
  unfold StructTable.field
  rw [bind_eq_ok]
  apply exists_congr
  intro d
  apply and_congr_right
  intro _
  unfold StructDef.field
  cases d.fields.find? (·.name == key) <;> simp

theorem Grows.field (h : Grows t u) (hfield : t.field name key = .ok f) :
    u.field name key = .ok f := by
  obtain ⟨d, hget, hfind⟩ := field_eq_ok.mp hfield
  exact field_eq_ok.mpr ⟨d, h.get hget, hfind⟩

theorem Grows.size (h : Grows t u) {ty : Ty} {size : Nat} (hsize : ty.size t = .ok size) :
    ty.size u = .ok size := by
  induction ty generalizing size with
  | array elem length ih =>
    obtain ⟨width, hwidth, hsize⟩ := bind_eq_ok.mp hsize
    exact bind_eq_ok.mpr ⟨width, ih hwidth, hsize⟩
  | struct name =>
    obtain ⟨d, hget, hsize⟩ := bind_eq_ok.mp hsize
    exact bind_eq_ok.mpr ⟨d, h.get hget, hsize⟩
  | _ => exact hsize

theorem Grows.tiled (h : Grows t u) {start stop : Nat} {places : List (Nat × Ty)}
    (htiled : Tiled t start places stop) : Tiled u start places stop := by
  induction places generalizing start with
  | nil => exact htiled
  | cons place rest ih =>
    obtain ⟨hoffset, size, hsize, htiled⟩ := htiled
    exact ⟨hoffset, size, h.size hsize, ih htiled⟩

theorem place_tiled {struct : String} {start stop : Nat} {fields : List (String × Ty)}
    {placed : List Field} (h : t.place struct start fields = .ok (placed, stop)) :
    Tiled t start (placed.map fun f => (f.offset, f.ty)) stop := by
  induction fields generalizing start placed with
  | nil =>
    cases h
    rfl
  | cons field rest ih =>
    obtain ⟨size, hsize, h⟩ := bind_eq_ok.mp h
    split at h
    · cases h
    · rename_i next hnext
      obtain ⟨⟨fields, total⟩, hrest, h⟩ := bind_eq_ok.mp h
      cases h
      obtain rfl := (Size.add?_eq_some_iff.mp hnext).2
      exact ⟨rfl, size, hsize, ih hrest⟩

/-- The fields of every struct tile it. -/
def Packed (t : StructTable) : Prop :=
  ∀ name d, t.get name = .ok d → Tiled t 0 (d.fields.map fun f => (f.offset, f.ty)) d.size

theorem Grows.packed (h : Grows empty t) : t.Packed := by
  induction h with
  | refl =>
    intro name d hget
    cases hget
  | @define u v new fields s hu hdefine ih =>
    obtain ⟨-, rfl, hdefs, hplace⟩ := define_eq_ok hdefine
    have hgrows : Grows u v := .define .refl hdefine
    intro name d hget
    rw [get_eq_ok, StructTable.get?, hdefs, List.find?_cons] at hget
    split at hget
    · cases hget
      exact hgrows.tiled (place_tiled hplace)
    · exact hgrows.tiled (ih name d (get_eq_ok.mpr hget))

/-- A field lies inside its struct, and its type has a size. -/
theorem Packed.field (h : t.Packed) (hfield : t.field name key = .ok f) :
    ∃ total size, (Ty.struct name).size t = .ok total ∧ f.ty.size t = .ok size ∧
      f.offset + size ≤ total := by
  obtain ⟨d, hget, hfind⟩ := field_eq_ok.mp hfield
  have hmem : (f.offset, f.ty) ∈ d.fields.map fun f => (f.offset, f.ty) :=
    List.mem_map_of_mem (List.mem_of_find?_eq_some hfind)
  obtain ⟨size, hsize, -, hle⟩ := (h name d hget).inside hmem
  exact ⟨d.size, size, bind_eq_ok.mpr ⟨d, hget, rfl⟩, hsize, hle⟩

end StructTable

end FlatMachine
