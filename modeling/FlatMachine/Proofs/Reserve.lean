import FlatMachine.Proofs.Place
import FlatMachine.Proofs.Relational

/-!
# The size of the reserve is not observed

Two arenas are alike if they differ at most in how many bytes they hold in reserve. Reading does not
look at the reserve, writing keeps it, and whether an allocation succeeds depends on the ceiling
alone. So an action that starts in arenas that are alike ends in the same way, in arenas that are
alike.
-/

namespace FlatMachine

open FlatMachine.Action

namespace Arena

variable {a b : Arena} {α : Type}

def withCapacity (a : Arena) (capacity : Nat) : Arena := { a with capacity }

/-- The arenas differ at most in their reserve, and no reserve passes the ceiling. -/
def Alike (a b : Arena) : Prop :=
  ∃ capacity ≤ a.limit, b = a.withCapacity capacity ∧ a.capacity ≤ a.limit

section Reading

variable (a : Arena) (c offset width handle fp i : Nat) (bytes : Bytes) (t : StructTable)
  (name : String) (ty : Ty)

@[simp] theorem read_withCapacity :
    (a.withCapacity c).read offset width = a.read offset width := rfl

@[simp] theorem readHandle_withCapacity :
    (a.withCapacity c).readHandle offset = a.readHandle offset := rfl

@[simp] theorem objectLength_withCapacity :
    (a.withCapacity c).objectLength handle = a.objectLength handle := rfl

@[simp] theorem readObject_withCapacity :
    (a.withCapacity c).readObject handle ty = a.readObject handle ty := rfl

@[simp] theorem implicit_withCapacity :
    (a.withCapacity c).implicit name offset ty = a.implicit name offset ty := by
  cases ty <;> rfl

@[simp] theorem element_withCapacity (index : Int) :
    (a.withCapacity c).element t offset index ty = a.element t offset index ty := by
  cases ty <;> rfl

end Reading

end Arena

section Operands

variable (a : Arena) (c fp : Nat) (t : StructTable)

mutual

@[simp] theorem Operand.place_withCapacity : (o : Operand) →
    o.place t (a.withCapacity c) fp = o.place t a fp
  | { name, ty, storage, chain, byReference, escapes, literalPointer, structName, declared,
      shortDeclared, location, package } => by
    rw [Operand.place_eq, Operand.place_eq]
    simp only [followChain_withCapacity chain]

theorem followChain_withCapacity : (chain : List Access) → {name : String} → {offset : Nat} →
    {ty : Ty} → followChain t (a.withCapacity c) fp name offset ty chain =
      followChain t a fp name offset ty chain
  | [], _, _, _ => rfl
  | access :: rest, _, _, _ => by
    unfold followChain
    simp only [access_withCapacity access, followChain_withCapacity rest]

theorem access_withCapacity : (access : Access) → {name : String} → {offset : Nat} → {ty : Ty} →
    access.follow t (a.withCapacity c) fp name offset ty = access.follow t a fp name offset ty
  | .pointer, _, _, _ => by
    unfold Access.follow
    rfl
  | .index source, name, offset, ty => by
    rw [Access.follow_index_eq, Access.follow_index_eq]
    simp only [Arena.implicit_withCapacity, Arena.element_withCapacity, index_withCapacity source]
  | .field ref, _, _, _ => by
    unfold Access.follow
    rfl

theorem index_withCapacity : (source : Index) →
    source.value t (a.withCapacity c) fp = source.value t a fp
  | .const n => by
    unfold Index.value
    rfl
  | .operand source => by
    unfold Index.value
    simp only [Operand.place_withCapacity source, Arena.read_withCapacity]

end

theorem Operand.steady_alike (o : Operand) : o.Steady Arena.Alike t fp := by
  rintro a _ ⟨c, -, rfl, -⟩
  exact o.place_withCapacity a c fp t

@[simp] theorem Operand.value_withCapacity (o : Operand) :
    o.value t (a.withCapacity c) fp = o.value t a fp := by
  simp only [Operand.value, place_withCapacity, Arena.read_withCapacity,
    Arena.readHandle_withCapacity, Arena.readObject_withCapacity]

@[simp] theorem Operand.bytes_withCapacity (o : Operand) :
    o.bytes t (a.withCapacity c) fp = o.bytes t a fp := by
  simp only [Operand.bytes, place_withCapacity, Arena.read_withCapacity]

end Operands

namespace Arena

variable {a b : Arena} {α : Type} {offset value width size count handle first second dst src : Nat}
  {bytes : Bytes}

theorem respects_query {f : Arena → Except Error α} (hf : ∀ a c, f (a.withCapacity c) = f a) :
    Respects Alike (query f) := by
  apply Action.respects_query
  rintro a _ ⟨c, -, rfl, -⟩
  exact hf a c

theorem respects_write (offset : Nat) (bytes : Bytes) :
    Respects Alike (update (·.write offset bytes)) := by
  rintro a _ ⟨c, hc, rfl, ha⟩
  have hcheck : (a.withCapacity c).check offset bytes.length = a.check offset bytes.length := rfl
  simp only [update, write, hcheck]
  cases a.check offset bytes.length <;> exact ⟨rfl, c, hc, rfl, ha⟩

/-- Whether bytes can be reserved depends on the ceiling alone. -/
theorem reserve_eq (h : a.capacity ≤ a.limit) (stop : Nat) : ∃ capacity ≤ a.limit,
    a.reserve stop = if stop ≤ a.limit then .ok (a.withCapacity capacity)
      else .error (.outOfMemory stop a.limit) := by
  unfold reserve
  by_cases hstop : stop ≤ a.capacity
  · refine ⟨a.capacity, h, ?_⟩
    rw [if_pos hstop, if_pos (hstop.trans h)]
    rfl
  · by_cases hlimit : stop ≤ a.limit
    · refine ⟨min (max (a.capacity * 2) stop) a.limit, Nat.min_le_right _ _, ?_⟩
      rw [if_neg hstop, if_neg (not_lt.mpr hlimit), if_pos hlimit]
      rfl
    · refine ⟨a.limit, le_rfl, ?_⟩
      rw [if_neg hstop, if_pos (not_le.mp hlimit), if_neg hlimit]

theorem respects_reserve_extend (offset stop width : Nat) :
    Respects Alike (advance fun a => do return (offset, (← a.reserve stop).extend width)) := by
  rintro a _ ⟨c, hc, rfl, ha⟩
  obtain ⟨x, hx, hreserve⟩ := reserve_eq ha stop
  obtain ⟨y, hy, hreserve'⟩ := reserve_eq (a := a.withCapacity c) hc stop
  have hlimit : (a.withCapacity c).limit = a.limit := rfl
  -- The new reserves may differ again, but both are enough or neither is.
  by_cases hfits : stop ≤ a.limit
  · simp only [advance, hreserve, hreserve', hlimit, if_pos hfits]
    exact ⟨rfl, y, hy, rfl, hx⟩
  · simp only [advance, hreserve, hreserve', hlimit, if_neg hfits]
    exact ⟨rfl, c, hc, rfl, ha⟩

theorem respects_allocate (size : Nat) : Respects Alike (advance (·.allocate size)) := by
  intro a b h
  obtain ⟨c, -, rfl, -⟩ := id h
  have hpointer : (a.withCapacity c).heapPointer = a.heapPointer := rfl
  simp only [advance, allocate, hpointer]
  cases Size.add? a.heapPointer size with
  | none => exact ⟨rfl, h⟩
  | some stop => exact respects_reserve_extend a.heapPointer stop size a _ h

theorem congruent_alike : Congruent Alike := ⟨respects_write, respects_allocate⟩

end Arena

end FlatMachine
