import FlatMachine.Proofs.Arena

/-!
# Values of a type

Reading memory as a value of a type and encoding a value for a place of a type fail for the bytes
and addresses they meet, never for the type, as long as the type is one that has such values.
-/

namespace FlatMachine

open FlatMachine.Action

/-- The cause lies in the values met: no type is wrong and no name is unknown. -/
def Error.Dynamic (e : Error) : Prop :=
  match e.root with
  | .typeMismatch .. | .unresolvedSymbol .. => False
  | _ => True

@[simp] theorem Error.dynamic_tag {e : Error} {location : Location} :
    (e.tag location).Dynamic ↔ e.Dynamic := by
  simp only [Error.Dynamic, root_tag]

theorem Error.Dynamic.root_ne {e : Error} (h : e.Dynamic) :
    (∀ context expected got, e.root ≠ .typeMismatch context expected got) ∧
      ∀ symbol, e.root ≠ .unresolvedSymbol symbol := by
  constructor
  · intro context expected got heq
    rw [Error.Dynamic, heq] at h
    exact h
  · intro symbol heq
    rw [Error.Dynamic, heq] at h
    exact h

namespace Arena

variable {a : Arena} {offset width handle count value : Nat} {bytes : Bytes}

theorem dynamic_read : Gives (a.read offset width) (fun bytes => bytes.length = width)
    Error.Dynamic := by
  refine gives_read.mono (fun _ h => h.2.1) ?_
  rintro _ ⟨-, rfl⟩
  trivial

theorem dynamic_write : Gives (a.write offset bytes) (fun _ => True) Error.Dynamic := by
  refine gives_write.mono (fun _ _ => trivial) ?_
  rintro _ ⟨-, rfl⟩
  trivial

theorem dynamic_zero : Gives (a.zero offset width) (fun _ => True) Error.Dynamic := by
  refine gives_zero.mono (fun _ _ => trivial) ?_
  rintro _ ⟨-, rfl⟩
  trivial

theorem dynamic_copy {src dst : Nat} :
    Gives (a.copy src dst width) (fun _ => True) Error.Dynamic := by
  refine gives_copy.mono (fun _ _ => trivial) ?_
  rintro _ (rfl | rfl) <;> trivial

theorem dynamic_allocate {size : Nat} :
    Gives (a.allocate size) (fun _ => True) Error.Dynamic := by
  refine gives_allocate.mono (fun _ _ => trivial) ?_
  rintro _ ⟨_, rfl⟩
  trivial

theorem dynamic_encodeHandle : Gives (encodeHandle value)
    (fun bytes => bytes.length = Ty.handleWidth) Error.Dynamic := by
  simp only [encodeHandle, gives_ite, gives_ok, gives_error]
  exact ⟨fun _ => LittleEndian.length_encode .., fun _ => trivial⟩

theorem dynamic_writeHandle : Gives (a.writeHandle offset value) (fun _ => True) Error.Dynamic := by
  simp only [writeHandle, gives_bind]
  exact dynamic_encodeHandle.imp fun _ _ => dynamic_write

theorem dynamic_readHandle : Gives (a.readHandle offset) (· < Nat.pow 256 headerWidth)
    Error.Dynamic := by
  simp only [readHandle, gives_bind, gives_pure]
  apply dynamic_read.imp
  intro bytes hlen
  have hlt := LittleEndian.decode_lt bytes
  rwa [hlen] at hlt

theorem dynamic_objectLength : Gives (a.objectLength handle) (· < Nat.pow 256 headerWidth)
    Error.Dynamic := by
  simp only [objectLength, gives_ite, gives_ok]
  exact ⟨fun _ => by decide, fun _ => dynamic_readHandle⟩

theorem dynamic_payload : Gives (a.payload handle width)
    (fun bytes => handle ≠ nilHandle → ∀ count, a.objectLength handle = .ok count →
      bytes.length = count * width) Error.Dynamic := by
  simp only [payload, gives_ite, gives_ok, gives_bind, gives_error]
  refine ⟨fun hnil hne => absurd hnil hne, fun _ => ?_⟩
  apply gives_iff.mpr
  constructor
  · intro count hcount
    refine ⟨fun _ => trivial, fun _ => ?_⟩
    apply dynamic_read.imp
    intro bytes hlen _ count' hcount'
    cases hcount.symm.trans hcount'
    exact hlen
  · intro e he
    exact dynamic_objectLength.failure he

theorem dynamic_elementOffset {index : Int} : Gives (a.elementOffset handle index width)
    (fun _ => True) Error.Dynamic := by
  simp only [elementOffset, gives_bind, gives_ite, gives_error, gives_pure]
  exact dynamic_objectLength.imp fun _ _ => ⟨fun _ => trivial, fun _ => trivial⟩

theorem dynamic_store : Ends (store bytes) a (fun _ _ => True) (fun e _ => e.Dynamic) := by
  simp only [store, ends_bind, ends_advance, ends_update, ends_pure]
  exact dynamic_allocate.imp fun _ _ => dynamic_write

theorem dynamic_newObject : Ends (newObject count width) a (fun _ _ => True)
    (fun e _ => e.Dynamic) := by
  simp only [newObject, ends_bind, ends_advance, ends_update, ends_pure]
  exact dynamic_allocate.imp fun _ _ => dynamic_writeHandle

theorem dynamic_appendElement : Ends (appendElement handle width bytes) a (fun _ _ => True)
    (fun e _ => e.Dynamic) := by
  simp only [appendElement, ends_ite, ends_bind, ends_throw, ends_query, ends_update, ends_pure]
  refine ⟨fun _ => trivial, fun _ => dynamic_payload.imp fun old _ => ?_⟩
  apply dynamic_newObject.imp
  intro result b _
  exact dynamic_write.imp fun c _ => dynamic_write

theorem dynamic_concatObjects {first second : Nat} :
    Ends (concatObjects first second width) a (fun _ _ => True) (fun e _ => e.Dynamic) := by
  simp only [concatObjects, ends_bind, ends_query, ends_update, ends_pure]
  apply dynamic_payload.imp
  intro front _
  apply dynamic_payload.imp
  intro back _
  exact dynamic_newObject.imp fun result b _ => dynamic_write

theorem dynamic_copyElements {dst src : Nat} :
    Ends (copyElements dst src width) a (fun _ _ => True) (fun e _ => e.Dynamic) := by
  simp only [copyElements, ends_bind, ends_query, ends_ite, ends_update, ends_pure]
  apply dynamic_payload.imp
  intro room _
  apply dynamic_payload.imp
  intro given _
  exact ⟨fun _ => dynamic_copy, fun _ => trivial⟩

end Arena

/-- The type of a value that is a scalar or a string. -/
def Value.ty? : Value → Option Ty
  | bool _ => some .bool
  | int kind _ => some (.int kind)
  | float kind _ => some (.float kind)
  | str _ => some .str
  | slice _ | pointer _ => none

namespace Ty

/-- The bytes of a type whose values are one word. -/
def wordWidth? : Ty → Option Nat
  | bool => some 1
  | int kind => some kind.bytes
  | float kind => some kind.bytes
  | pointer _ => some handleWidth
  | _ => none

variable {ty elem : Ty} {t : StructTable} {width count : Nat} {bytes : Bytes}

theorem size_of_wordWidth? (h : ty.wordWidth? = some width) : ty.size t = .ok width := by
  cases ty <;> cases h <;> rfl

theorem wordWidth?_elementView (h : elem.elementWidth = .ok width) :
    elem.elementView.wordWidth? = some width := by
  cases elem <;> cases h <;> rfl

theorem size_of_elementWidth (h : elem.elementWidth = .ok width) : elem.size t = .ok width := by
  cases elem <;> cases h <;> rfl

theorem gives_decodeWord (hword : ty.wordWidth? = some width) (hlen : width ≤ bytes.length) :
    Gives (ty.decodeWord bytes) (fun v => ty.isScalar = true → v.ty? = some ty)
      (fun _ => False) := by
  cases ty <;> cases hword <;>
    simp only [decodeWord, takeWord, gives_bind, gives_ite, gives_ok, gives_error, gives_pure] <;>
    exact ⟨fun _ => by simp [Value.ty?, isScalar], fun h => h hlen⟩

theorem gives_decode_word (h : ty.wordWidth? = some bytes.length) :
    Gives (ty.decode bytes) (fun v => ty.isScalar = true → v.ty? = some ty) (fun _ => False) := by
  have hword := gives_decodeWord h le_rfl
  cases ty with
  | str => cases h
  | slice elem => cases h
  | _ => exact hword

theorem gives_decodeElements (hwidth : elem.elementWidth = .ok width)
    (hlen : count * width ≤ bytes.length) :
    Gives (elem.decodeElements width count bytes) (fun _ => True) (fun _ => False) := by
  induction count generalizing bytes with
  | zero => trivial
  | succ count ih =>
    rw [Nat.succ_mul] at hlen
    simp only [decodeElements, gives_bind, gives_pure]
    have hfirst : width ≤ (bytes.take width).length := by
      rw [List.length_take]
      omega
    refine (gives_decodeWord (wordWidth?_elementView hwidth) hfirst).imp fun item _ => ih ?_
    rw [List.length_drop]
    omega

/-- Values of the type can be read as a whole: scalars, addresses, and strings and slices whose
elements are scalars or handles. -/
def isReadable : Ty → Bool
  | bool | int _ | float _ | str | pointer _ => true
  | slice elem => elem.isScalar || elem.isHandle
  | _ => false

theorem exists_elementWidth (h : (slice elem).isReadable = true) :
    ∃ width, elem.elementWidth = .ok width := by
  cases elem <;> first | exact ⟨_, rfl⟩ | cases h

/-- The count in front of an object's elements is read back. -/
theorem gives_checkedCount {payload : Bytes} (hcount : count < Nat.pow 256 headerWidth) :
    Gives (checkedCount (LittleEndian.encode headerWidth count ++ payload) width) (· = count)
      Error.Dynamic := by
  have hlen : (LittleEndian.encode headerWidth count).length = headerWidth :=
    LittleEndian.length_encode ..
  simp only [checkedCount, gives_ite, gives_ok, gives_error]
  refine ⟨fun _ => trivial, fun _ => ⟨fun _ => trivial, fun _ => ?_⟩⟩
  rw [List.take_left' hlen, LittleEndian.decode_encode hcount]

theorem gives_decode_object {payload : Bytes} (hty : ty = .str ∨ ∃ elem, ty = .slice elem)
    (hread : ty.isReadable = true) (hcount : count < Nat.pow 256 headerWidth)
    (hlen : ∀ elem width, ty = .slice elem → elem.elementWidth = .ok width →
      payload.length = count * width) :
    Gives (ty.decode (LittleEndian.encode headerWidth count ++ payload))
      (fun v => ty = .str → v.ty? = some .str) Error.Dynamic := by
  rcases hty with rfl | ⟨elem, rfl⟩
  · simp only [decode, gives_bind, gives_pure]
    exact (gives_checkedCount hcount).imp fun _ _ _ => rfl
  · obtain ⟨width, hwidth⟩ := exists_elementWidth hread
    simp only [decode, hwidth, gives_bind, gives_pure, gives_ok]
    apply (gives_checkedCount hcount).imp
    intro count' hcount'
    subst count'
    have hdrop : (LittleEndian.encode headerWidth count ++ payload).drop headerWidth = payload :=
      List.drop_left' (LittleEndian.length_encode ..)
    rw [hdrop]
    have hfits := (hlen elem width rfl hwidth).ge
    apply (gives_decodeElements hwidth hfits).mono ?_ fun _ h => h.elim
    intro _ _ hstr
    cases hstr

end Ty

/-- A word is read as a value of its type. -/
theorem Arena.gives_readWord {a : Arena} {offset width : Nat} {ty : Ty}
    (hword : ty.wordWidth? = some width) :
    Gives (a.read offset width >>= ty.decode)
      (fun v => ty.isScalar = true ∨ ty = .str → v.ty? = some ty) Error.Dynamic := by
  rw [gives_bind]
  apply dynamic_read.imp
  intro bytes hlen
  rw [← hlen] at hword
  apply (Ty.gives_decode_word hword).mono ?_ fun _ he => he.elim
  intro v hv
  rintro (hscalar | rfl)
  · exact hv hscalar
  · cases hword

theorem Arena.dynamic_readObject {a : Arena} {handle : Nat} {ty : Ty}
    (hty : ty = .str ∨ ∃ elem, ty = .slice elem) (hread : ty.isReadable = true) :
    Gives (a.readObject handle ty) (fun v => ty = .str → v.ty? = some .str) Error.Dynamic := by
  by_cases hnil : handle = nilHandle
  · rcases hty with rfl | ⟨elem, rfl⟩
    · simp only [readObject, if_pos hnil, gives_ok]
      exact fun _ => rfl
    · obtain ⟨width, hwidth⟩ := Ty.exists_elementWidth hread
      simp only [readObject, if_pos hnil, hwidth, gives_bind, gives_ok, gives_pure]
      intro hstr
      cases hstr
  · have hobject : ∀ width, (∀ elem, ty = .slice elem → elem.elementWidth = .ok width) →
        Gives (do
          let count ← a.objectLength handle
          ty.decode (LittleEndian.encode headerWidth count ++ (← a.payload handle width)))
          (fun v => ty = .str → v.ty? = some .str) Error.Dynamic := by
      intro width hwidth
      simp only [gives_bind]
      refine gives_iff.mpr ⟨fun count hcount => ?_, fun _ he => dynamic_objectLength.failure he⟩
      apply dynamic_payload.imp
      intro payload hpayload
      apply Ty.gives_decode_object hty hread (dynamic_objectLength.value hcount)
      intro elem width' helem hwidth'
      cases (hwidth elem helem).symm.trans hwidth'
      exact hpayload hnil count hcount
    rcases hty with rfl | ⟨elem, rfl⟩
    · have hstr := hobject 1 fun elem h => by cases h
      simpa only [readObject, if_neg hnil] using hstr
    · obtain ⟨width, hwidth⟩ := Ty.exists_elementWidth hread
      have hbind : a.readObject handle (.slice elem) = a.objectLength handle >>= fun count =>
          a.payload handle width >>= fun payload =>
            Ty.decode (LittleEndian.encode headerWidth count ++ payload) (.slice elem) := by
        simp only [readObject, hwidth, if_neg hnil]
        rfl
      rw [hbind]
      apply hobject width
      intro elem' helem
      cases helem
      exact hwidth

theorem Value.gives_encode {v : Value} {ty : Ty} (h : v.ty? = some ty) :
    Gives (v.encode ty) (fun bytes => ty.isScalar = true → ty.wordWidth? = some bytes.length)
      Error.Dynamic := by
  cases v with
  | bool b =>
    cases h
    exact fun _ => rfl
  | int kind word =>
    cases h
    simp only [encode, encodeScalar, if_true, gives_ok, LittleEndian.length_encode]
    exact fun _ => rfl
  | float kind word =>
    cases h
    simp only [encode, encodeScalar, if_true, gives_ok, LittleEndian.length_encode]
    exact fun _ => rfl
  | str text =>
    cases h
    simp only [encode, gives_bind, gives_pure]
    apply Arena.dynamic_encodeHandle.imp
    intro _ _ hscalar
    cases hscalar
  | slice items => cases h
  | pointer offset => cases h

end FlatMachine
