import FlatMachine.Memory.Place
import FlatMachine.Proofs.Binding

/-!
# Where operands lead
-/

namespace FlatMachine

/-- The address of a symbol. -/
def Storage.start (fp : Nat) (name : String) : Storage → Except Error Nat
  | .frame offset => .ok (fp + offset)
  | .global offset => .ok offset
  | .unassigned => .error (.unresolvedSymbol name)

theorem Operand.place_eq (t : StructTable) (a : Arena) (fp : Nat) (o : Operand) :
    o.place t a fp = o.storage.start fp o.name >>= fun start =>
      followChain t a fp o.name start o.ty o.chain >>= fun found =>
        found.2.size t >>= fun size => return ⟨found.1, found.2, size⟩ := by
  obtain ⟨name, ty, storage, chain, byReference, escapes, literalPointer, structName, declared,
    shortDeclared, location, package⟩ := o
  unfold Operand.place
  cases storage <;> rfl

/-- The value that an access starts from: what a pointer leads to, or the value itself. -/
def Arena.implicit (a : Arena) (name : String) (offset : Nat) : Ty → Except Error (Nat × Ty)
  | .pointer target => return (← a.follow name offset, target)
  | ty => return (offset, ty)

/-- An element of the array or slice at an offset. -/
def Arena.element (t : StructTable) (a : Arena) (offset : Nat) (index : Int) :
    Ty → Except Error (Nat × Ty)
  | .array elem length => do
    checkIndex index length.toNat
    return (offset + index.toNat * (← elem.size t), elem)
  | .slice elem => do
    let handle ← a.readHandle offset
    checkIndex index (← a.objectLength handle)
    return (handle + headerWidth + index.toNat * (← elem.size t), elem)
  | other => .error (.typeMismatch "index" "an array or slice" other.text)

theorem Access.follow_index_eq (t : StructTable) (a : Arena) (fp : Nat) (name : String)
    (offset : Nat) (ty : Ty) (source : Index) :
    (Access.index source).follow t a fp name offset ty = a.implicit name offset ty >>= fun start =>
      source.value t a fp >>= fun index => a.element t start.1 index start.2 := by
  unfold Access.follow
  cases ty with
  | pointer target =>
    simp only [Arena.implicit, bind_assoc, pure_bind]
    rfl
  | _ => rfl

theorem gives_checkIndex {index : Int} {length : Nat} : Gives (checkIndex index length)
    (fun _ => 0 ≤ index ∧ index < length) (fun e => e = .indexOutOfRange index length) := by
  unfold checkIndex
  simp only [gives_ite, gives_ok, gives_error]
  exact ⟨fun _ => trivial, fun h => by omega⟩

end FlatMachine
