import FlatMachine.Proofs.HeapObjects
import FlatMachine.Proofs.Utf8
import FlatMachine.Proofs.Values

/-!
# Encoded values are read back

A word is decoded to the value that was encoded, whatever follows it. Elements are words one after
another, and an object is the count of its elements in front of them, so both inherit this from the
words; text inherits it from UTF-8.
-/

namespace FlatMachine

variable {v : Value} {ty elem : Ty} {width n count : Nat} {bytes rest : Bytes} {items : List Value}

section Words

theorem takeWord_eq_ok : takeWord bytes width ty = .ok n ↔
    width ≤ bytes.length ∧ LittleEndian.decode (bytes.take width) = n := by
  unfold takeWord
  split <;> simp [*]

theorem takeWord_of_length (h : bytes.length = width) :
    takeWord bytes width ty = .ok (LittleEndian.decode bytes) :=
  takeWord_eq_ok.mpr ⟨h.ge, by rw [← h, List.take_length]⟩

theorem takeWord_encode (h : n < Nat.pow 256 width) :
    takeWord (LittleEndian.encode width n ++ rest) width ty = .ok n := by
  have hlen : (LittleEndian.encode width n).length = width := LittleEndian.length_encode ..
  apply takeWord_eq_ok.mpr
  rw [List.length_append, List.take_left' hlen, LittleEndian.decode_encode h, hlen]
  exact ⟨Nat.le_add_right _ _, rfl⟩

theorem decode_take_lt (h : width ≤ bytes.length) :
    LittleEndian.decode (bytes.take width) < Nat.pow 256 width := by
  have hlen : (bytes.take width).length = width := List.length_take_of_le h
  have hlt := LittleEndian.decode_lt (bytes.take width)
  rwa [hlen] at hlt

theorem encode_decode_take (h : width ≤ bytes.length) :
    LittleEndian.encode width (LittleEndian.decode (bytes.take width)) = bytes.take width := by
  have hlen : (bytes.take width).length = width := List.length_take_of_le h
  have hback := LittleEndian.encode_decode (bytes.take width)
  rwa [hlen] at hback

theorem encodeHandle_eq_ok : encodeHandle n = .ok bytes ↔
    n ≤ Size.maxHandle ∧ LittleEndian.encode headerWidth n = bytes := by
  unfold encodeHandle
  split <;> simp [*, headerWidth]

theorem le_maxHandle_iff : n ≤ Size.maxHandle ↔ n < Nat.pow 256 headerWidth :=
  Nat.lt_succ_iff.symm

section Bits

variable {bits : Nat}

theorem toNat_lt_of_bits (h : bits = 8 * width) (w : BitVec bits) :
    w.toNat < Nat.pow 256 width := by
  subst h
  have hlt := w.isLt
  rwa [Nat.pow_mul] at hlt

theorem toNat_ofNat_of_bits (h : bits = 8 * width) (hn : n < Nat.pow 256 width) :
    (BitVec.ofNat bits n).toNat = n := by
  subst h
  rw [BitVec.toNat_ofNat, Nat.pow_mul]
  exact Nat.mod_eq_of_lt hn

theorem ofNat_toNat_self (w : BitVec bits) : BitVec.ofNat bits w.toNat = w := by
  rw [BitVec.ofNat_toNat, BitVec.setWidth_eq]

end Bits

theorem decodeWord_encodeScalar (rest : Bytes) (h : v.encodeScalar ty = .ok bytes) :
    ty.wordWidth? = some bytes.length ∧ ty.decodeWord (bytes ++ rest) = .ok v := by
  unfold Value.encodeScalar at h
  split at h
  · rename_i b
    cases h
    refine ⟨rfl, ?_⟩
    have hword : takeWord (LittleEndian.encode 1 (if b then 1 else 0) ++ rest) 1 .bool =
        .ok (if b then 1 else 0) := by
      apply takeWord_encode
      split <;> decide
    cases b <;> exact congrArg (· >>= fun n => pure (Value.bool (n != 0))) hword
  · split at h <;> cases h
    rename_i k w _ heq
    cases heq
    refine ⟨by rw [LittleEndian.length_encode]; rfl, ?_⟩
    simp only [Ty.decodeWord, takeWord_encode (toNat_lt_of_bits k.bits_eq w)]
    exact congrArg (fun w => Except.ok (Value.int k w)) (ofNat_toNat_self w)
  · split at h <;> cases h
    rename_i k w _ heq
    cases heq
    refine ⟨by rw [LittleEndian.length_encode]; rfl, ?_⟩
    simp only [Ty.decodeWord, takeWord_encode (toNat_lt_of_bits k.bits_eq w)]
    exact congrArg (fun w => Except.ok (Value.float k w)) (ofNat_toNat_self w)
  · cases h

theorem decodeWord_encodeHandle {target : Ty} (h : encodeHandle n = .ok bytes) :
    (Ty.pointer target).decodeWord (bytes ++ rest) = .ok (.pointer n) := by
  obtain ⟨hle, rfl⟩ := encodeHandle_eq_ok.mp h
  have hword : takeWord (LittleEndian.encode headerWidth n ++ rest) headerWidth (.pointer target) =
      .ok n := takeWord_encode (le_maxHandle_iff.mp hle)
  exact congrArg (· >>= fun n => pure (Value.pointer n)) hword

/-- A number's word stands for that number only. -/
theorem encodeScalar_decodeWord (hty : ty.isInteger = true ∨ ty.isFloat = true)
    (hword : ty.wordWidth? = some width) (h : ty.decodeWord bytes = .ok v) :
    v.encodeScalar ty = .ok (bytes.take width) := by
  cases ty with
  | int k =>
    cases hword
    obtain ⟨n, hn, h⟩ := bind_eq_ok.mp h
    obtain ⟨hle, rfl⟩ := takeWord_eq_ok.mp hn
    cases h
    simp only [Value.encodeScalar, if_true]
    rw [toNat_ofNat_of_bits k.bits_eq (decode_take_lt hle), encode_decode_take hle]
  | float k =>
    cases hword
    obtain ⟨n, hn, h⟩ := bind_eq_ok.mp h
    obtain ⟨hle, rfl⟩ := takeWord_eq_ok.mp hn
    cases h
    simp only [Value.encodeScalar, if_true]
    rw [toNat_ofNat_of_bits k.bits_eq (decode_take_lt hle), encode_decode_take hle]
  | _ => rcases hty with hty | hty <;> cases hty

theorem encodeHandle_decodeWord {target : Ty} (h : (Ty.pointer target).decodeWord bytes = .ok v) :
    ∃ n, v = .pointer n ∧ encodeHandle n = .ok (bytes.take Ty.handleWidth) := by
  obtain ⟨n, hn, h⟩ := bind_eq_ok.mp h
  obtain ⟨hle, rfl⟩ := takeWord_eq_ok.mp hn
  cases h
  exact ⟨_, rfl, encodeHandle_eq_ok.mpr
    ⟨le_maxHandle_iff.mpr (decode_take_lt hle), encode_decode_take hle⟩⟩

end Words

section Elements

theorem decodeWord_encodeElement (h : v.encodeElement elem = .ok bytes) :
    elem.elementView.decodeWord (bytes ++ rest) = .ok v := by
  unfold Value.encodeElement at h
  by_cases hhandle : elem.isHandle = true
  · rw [if_pos hhandle] at h
    split at h
    · rw [Ty.elementView, if_pos hhandle]
      exact decodeWord_encodeHandle h
    · cases h
  · rw [if_neg hhandle] at h
    rw [Ty.elementView, if_neg hhandle]
    exact (decodeWord_encodeScalar rest h).2

theorem decodeElements_encodeElements (rest : Bytes) (hwidth : elem.elementWidth = .ok width)
    (h : Value.encodeElements elem items = .ok bytes) :
    bytes.length = items.length * width ∧
      elem.decodeElements width items.length (bytes ++ rest) = .ok items := by
  induction items generalizing bytes with
  | nil =>
    cases h
    exact ⟨(Nat.zero_mul _).symm, rfl⟩
  | cons v items ih =>
    obtain ⟨first, hfirst, h⟩ := bind_eq_ok.mp h
    obtain ⟨others, hothers, h⟩ := bind_eq_ok.mp h
    cases h
    obtain ⟨hcount, hitems⟩ := ih hothers
    have hlen : first.length = width := length_encodeElement hwidth hfirst
    have hitem : elem.elementView.decodeWord first = .ok v := by
      rw [← List.append_nil first]
      exact decodeWord_encodeElement hfirst
    constructor
    · rw [List.length_append, List.length_cons, Nat.succ_mul, hcount, hlen, Nat.add_comm]
    · rw [List.length_cons, List.append_assoc, Ty.decodeElements, List.take_left' hlen,
        List.drop_left' hlen, hitem, hitems]
      rfl

/-- Every stored element stands for one value only: it is a number or a handle. -/
def Ty.isExactElement (elem : Ty) : Bool := elem.isInteger || elem.isFloat || elem.isHandle

theorem encodeElement_decodeWord (hexact : elem.isExactElement = true)
    (hwidth : elem.elementWidth = .ok width) (h : elem.elementView.decodeWord bytes = .ok v) :
    v.encodeElement elem = .ok (bytes.take width) := by
  unfold Value.encodeElement
  by_cases hhandle : elem.isHandle = true
  · rw [Ty.elementView, if_pos hhandle] at h
    obtain ⟨n, rfl, hn⟩ := encodeHandle_decodeWord h
    have hfour : width = Ty.handleWidth := by
      cases elem <;> cases hwidth <;> first | rfl | cases hhandle
    rw [if_pos hhandle, hfour]
    exact hn
  · have hview : elem.elementView = elem := by rw [Ty.elementView, if_neg hhandle]
    have hword := Ty.wordWidth?_elementView hwidth
    rw [hview] at h hword
    rw [if_neg hhandle]
    apply encodeScalar_decodeWord ?_ hword h
    simpa [Ty.isExactElement, hhandle] using hexact

theorem length_decodeElements (h : elem.decodeElements width count bytes = .ok items) :
    items.length = count := by
  induction count generalizing bytes items with
  | zero =>
    cases h
    rfl
  | succ count ih =>
    obtain ⟨v, -, h⟩ := bind_eq_ok.mp h
    obtain ⟨others, hothers, h⟩ := bind_eq_ok.mp h
    cases h
    rw [List.length_cons, ih hothers]

theorem encodeElements_decodeElements (hexact : elem.isExactElement = true)
    (hwidth : elem.elementWidth = .ok width)
    (h : elem.decodeElements width count bytes = .ok items) :
    Value.encodeElements elem items = .ok (bytes.take (count * width)) := by
  induction count generalizing bytes items with
  | zero =>
    cases h
    rw [Nat.zero_mul]
    rfl
  | succ count ih =>
    obtain ⟨v, hv, h⟩ := bind_eq_ok.mp h
    obtain ⟨others, hothers, h⟩ := bind_eq_ok.mp h
    cases h
    have hfirst := encodeElement_decodeWord hexact hwidth hv
    rw [List.take_take, Nat.min_self] at hfirst
    rw [Value.encodeElements, hfirst, ih hothers, Nat.succ_mul, Nat.add_comm, List.take_add]
    rfl

end Elements

section Objects

/-- The count in an object's header. -/
def storedCount (bytes : Bytes) : Nat := LittleEndian.decode (bytes.take headerWidth)

/-- The header is there, and so are all the elements that it counts. -/
def Complete (bytes : Bytes) (width : Nat) : Prop :=
  headerWidth ≤ bytes.length ∧ headerWidth + storedCount bytes * width ≤ bytes.length

instance (bytes : Bytes) (width : Nat) : Decidable (Complete bytes width) :=
  inferInstanceAs (Decidable (_ ∧ _))

/-- The bytes that are missed first: the header's, else all that the header asks for. -/
def neededBytes (bytes : Bytes) (width : Nat) : Nat :=
  if bytes.length < headerWidth then headerWidth else headerWidth + storedCount bytes * width

theorem objectSize_eq (hcount : count < Nat.pow 256 headerWidth) (hwidth : width ≤ 8) :
    objectSize count width = headerWidth + count * width := by
  have hmul : count * width ≤ Nat.pow 256 headerWidth * 8 := Nat.mul_le_mul hcount.le hwidth
  have hmax : Nat.pow 256 headerWidth * 8 + headerWidth ≤ Size.max := by decide
  have hfits : count * width ≤ Size.max := by omega
  have hroom : count * width + headerWidth ≤ Size.max := by omega
  rw [objectSize, Size.mul?, if_pos hfits, Option.bind_some, Size.add?, if_pos hroom,
    Option.getD_some, Nat.add_comm]

theorem Ty.elementWidth_le (h : elem.elementWidth = .ok width) : width ≤ 8 := by
  cases elem with
  | int kind | float kind => cases kind <;> cases h <;> decide
  | _ => cases h <;> decide

theorem checkedCount_eq (hwidth : width ≤ 8) :
    checkedCount bytes width = if Complete bytes width then .ok (storedCount bytes)
      else .error (.corruptSlice (neededBytes bytes width) bytes.length) := by
  by_cases hheader : bytes.length < headerWidth
  · have hnot : ¬ Complete bytes width := fun h => absurd h.1 (by omega)
    rw [checkedCount, if_pos hheader, if_neg hnot, neededBytes, if_pos hheader]
  · have hle : headerWidth ≤ bytes.length := by omega
    have hsize : objectSize (storedCount bytes) width = headerWidth + storedCount bytes * width :=
      objectSize_eq (decode_take_lt hle) hwidth
    rw [checkedCount, if_neg hheader, neededBytes, if_neg hheader]
    change (if bytes.length < objectSize (storedCount bytes) width then
      Except.error (Error.corruptSlice (objectSize (storedCount bytes) width) bytes.length)
      else .ok (storedCount bytes)) = _
    rw [hsize]
    by_cases hshort : bytes.length < headerWidth + storedCount bytes * width
    · have hnot : ¬ Complete bytes width := fun h => absurd h.2 (by omega)
      rw [if_pos hshort, if_neg hnot]
    · have hcomplete : Complete bytes width := ⟨hle, by omega⟩
      rw [if_neg hshort, if_pos hcomplete]

theorem checkedCount_object {payload : Bytes} (hcount : count ≤ Size.maxHandle)
    (hwidth : width ≤ 8) (hlen : count * width ≤ payload.length) :
    checkedCount (LittleEndian.encode headerWidth count ++ payload) width = .ok count := by
  have hheader : (LittleEndian.encode headerWidth count).length = headerWidth :=
    LittleEndian.length_encode ..
  have hstored : storedCount (LittleEndian.encode headerWidth count ++ payload) = count := by
    rw [storedCount, List.take_left' hheader,
      LittleEndian.decode_encode (le_maxHandle_iff.mp hcount)]
  have hcomplete : Complete (LittleEndian.encode headerWidth count ++ payload) width := by
    rw [Complete, hstored, List.length_append, hheader]
    omega
  rw [checkedCount_eq hwidth, if_pos hcomplete, hstored]

theorem decode_encode_text {text : String} (rest : Bytes)
    (h : (Value.str text).encode .str = .ok bytes) :
    bytes.length = headerWidth + text.utf8ByteSize ∧
      Ty.decode (bytes ++ rest) .str = .ok (.str text) := by
  obtain ⟨header, hheader, h⟩ := bind_eq_ok.mp h
  obtain ⟨hcount, rfl⟩ := encodeHandle_eq_ok.mp hheader
  cases h
  have hlen := LittleEndian.length_encode headerWidth (Utf8.encode text).length
  constructor
  · rw [List.length_append, hlen, Utf8.length_encode]
  · have hread : checkedCount (LittleEndian.encode headerWidth (Utf8.encode text).length ++
        (Utf8.encode text ++ rest)) 1 = .ok (Utf8.encode text).length := by
      apply checkedCount_object hcount (by decide)
      rw [List.length_append]
      omega
    rw [List.append_assoc, Ty.decode, hread]
    change Except.ok (Value.str _) = _
    rw [List.drop_left' hlen, List.take_left, Utf8.decodeText_encode]

theorem decode_encode_items (rest : Bytes)
    (h : (Value.slice items).encode (.slice elem) = .ok bytes) :
    ∃ width, elem.elementWidth = .ok width ∧
      bytes.length = headerWidth + items.length * width ∧
      Ty.decode (bytes ++ rest) (.slice elem) = .ok (.slice items) := by
  obtain ⟨width, hwidth, h⟩ := bind_eq_ok.mp h
  obtain ⟨header, hheader, h⟩ := bind_eq_ok.mp h
  obtain ⟨payload, hpayload, h⟩ := bind_eq_ok.mp h
  obtain ⟨hcount, rfl⟩ := encodeHandle_eq_ok.mp hheader
  cases h
  have hlen := LittleEndian.length_encode headerWidth items.length
  obtain ⟨hsize, hitems⟩ := decodeElements_encodeElements rest hwidth hpayload
  refine ⟨width, hwidth, ?_, ?_⟩
  · rw [List.length_append, hlen, hsize]
  · have hread : checkedCount (LittleEndian.encode headerWidth items.length ++
        (payload ++ rest)) width = .ok items.length := by
      apply checkedCount_object hcount (Ty.elementWidth_le hwidth)
      rw [List.length_append]
      omega
    rw [List.append_assoc, Ty.decode, hwidth]
    change (checkedCount _ width >>= fun count => _) = _
    rw [hread]
    change (elem.decodeElements width items.length (List.drop headerWidth _) >>= _) = _
    rw [List.drop_left' hlen, hitems]
    rfl

end Objects

section Values

theorem Ty.decode_eq_decodeWord (h : ty.wordWidth? = some width) :
    ty.decode bytes = ty.decodeWord bytes := by
  cases ty <;> first | rfl | cases h

/-- An address, given in the place of the string or slice that it is the address of. -/
def Value.isAddressOf : Value → Ty → Bool
  | pointer _, .str | pointer _, .slice _ => true
  | _, _ => false

/-- The bytes that a value takes: its object's for a text or a slice, else those of its type. -/
def Value.encodedLength (t : StructTable) : Value → Ty → Except Error Nat
  | str text, .str => .ok (headerWidth + text.utf8ByteSize)
  | slice items, .slice elem => do return headerWidth + items.length * (← elem.elementWidth)
  | _, ty => ty.size t

theorem encode_length_decode (rest : Bytes) (h : v.encode ty = .ok bytes)
    (hplain : v.isAddressOf ty = false) :
    (∀ t, v.encodedLength t ty = .ok bytes.length) ∧ ty.decode (bytes ++ rest) = .ok v := by
  unfold Value.encode at h
  split at h
  · refine ⟨fun t => ?_, decodeWord_encodeHandle h⟩
    obtain ⟨-, rfl⟩ := encodeHandle_eq_ok.mp h
    rw [LittleEndian.length_encode]
    rfl
  · cases hplain
  · cases hplain
  · obtain ⟨hlen, hback⟩ := decode_encode_text rest h
    refine ⟨fun t => ?_, hback⟩
    rw [hlen, Value.encodedLength]
  · obtain ⟨width, hwidth, hlen, hback⟩ := decode_encode_items rest h
    refine ⟨fun t => ?_, hback⟩
    rw [hlen, Value.encodedLength, hwidth]
    rfl
  · obtain ⟨hword, hback⟩ := decodeWord_encodeScalar rest h
    rw [Ty.decode_eq_decodeWord hword]
    refine ⟨fun t => ?_, hback⟩
    have hsize := Ty.size_of_wordWidth? (t := t) hword
    unfold Value.encodedLength
    split
    · cases hword
    · cases hword
    · exact hsize

/-- Every encoding of the type is that of one value only. -/
def Ty.isExact : Ty → Bool
  | slice elem => elem.isExactElement
  | pointer _ => true
  | ty => ty.isInteger || ty.isFloat

theorem encode_decode_items (hexact : elem.isExactElement = true)
    (h : Ty.decode bytes (.slice elem) = .ok v) :
    ∃ image, v.encode (.slice elem) = .ok image ∧ image <+: bytes := by
  obtain ⟨width, hwidth, h⟩ := bind_eq_ok.mp h
  obtain ⟨count, hcount, h⟩ := bind_eq_ok.mp h
  obtain ⟨items, hitems, h⟩ := bind_eq_ok.mp h
  cases h
  rw [checkedCount_eq (Ty.elementWidth_le hwidth)] at hcount
  split at hcount
  · rename_i hcomplete
    cases hcount
    have hlen := length_decodeElements hitems
    have hpayload := encodeElements_decodeElements hexact hwidth hitems
    have hheader : encodeHandle items.length = .ok (bytes.take headerWidth) := by
      rw [hlen]
      exact encodeHandle_eq_ok.mpr
        ⟨le_maxHandle_iff.mpr (decode_take_lt hcomplete.1), encode_decode_take hcomplete.1⟩
    refine ⟨bytes.take (headerWidth + storedCount bytes * width), ?_, List.take_prefix _ _⟩
    simp only [Value.encode, hwidth, hheader, hpayload, List.take_add]
    rfl
  · cases hcount

theorem encode_decode_number (hty : ty.isInteger = true ∨ ty.isFloat = true)
    (hword : ty.wordWidth? = some width) (h : ty.decode bytes = .ok v) :
    ∃ image, v.encode ty = .ok image ∧ image <+: bytes := by
  rw [Ty.decode_eq_decodeWord hword] at h
  have himage := encodeScalar_decodeWord hty hword h
  refine ⟨bytes.take width, ?_, List.take_prefix _ _⟩
  cases ty with
  | int k => cases v <;> exact himage
  | float k => cases v <;> exact himage
  | _ => rcases hty with hty | hty <;> cases hty

theorem encode_decode (hexact : ty.isExact = true) (h : ty.decode bytes = .ok v) :
    ∃ image, v.encode ty = .ok image ∧ image <+: bytes := by
  cases ty with
  | slice elem => exact encode_decode_items hexact h
  | pointer target =>
    obtain ⟨n, rfl, hn⟩ := encodeHandle_decodeWord h
    exact ⟨_, hn, List.take_prefix _ _⟩
  | int k => exact encode_decode_number (.inl rfl) rfl h
  | float k => exact encode_decode_number (.inr rfl) rfl h
  | _ => cases hexact

/-- The width of an element of the type's objects: of a byte of a text, of a scalar or handle of a
slice. -/
def Ty.objectWidth? : Ty → Option Nat
  | str => some 1
  | slice elem => if elem.isScalar || elem.isHandle then elem.fixedSize? else none
  | _ => none

theorem Ty.elementWidth_of_objectWidth? (h : (slice elem).objectWidth? = some width) :
    elem.elementWidth = .ok width := by
  cases elem <;> cases h <;> rfl

theorem decode_object (h : ty.objectWidth? = some width) :
    (Complete bytes width → ∃ v, ty.decode bytes = .ok v ∧
      ∀ items, v = .slice items → items.length = storedCount bytes) ∧
    (¬ Complete bytes width →
      ty.decode bytes = .error (.corruptSlice (neededBytes bytes width) bytes.length)) := by
  cases ty with
  | str =>
    cases h
    rw [Ty.decode, checkedCount_eq (by decide)]
    constructor
    · intro hcomplete
      rw [if_pos hcomplete]
      exact ⟨_, rfl, fun items hitems => by cases hitems⟩
    · intro hshort
      rw [if_neg hshort]
      rfl
  | slice elem =>
    have hwidth := Ty.elementWidth_of_objectWidth? h
    have hbind : Ty.decode bytes (.slice elem) = checkedCount bytes width >>= fun count =>
        elem.decodeElements width count (bytes.drop headerWidth) >>= fun items =>
          pure (.slice items) := by
      rw [Ty.decode, hwidth]
      rfl
    rw [hbind, checkedCount_eq (Ty.elementWidth_le hwidth)]
    constructor
    · intro hcomplete
      have hroom : storedCount bytes * width ≤ (bytes.drop headerWidth).length := by
        have hfits := hcomplete.2
        rw [List.length_drop]
        omega
      rw [if_pos hcomplete]
      change ∃ v, (elem.decodeElements width (storedCount bytes) _ >>= _) = .ok v ∧ _
      cases hitems : elem.decodeElements width (storedCount bytes) (bytes.drop headerWidth) with
      | error e => exact ((Ty.gives_decodeElements hwidth hroom).failure hitems).elim
      | ok items =>
        refine ⟨.slice items, rfl, fun items' heq => ?_⟩
        cases heq
        exact length_decodeElements hitems
    · intro hshort
      rw [if_neg hshort]
      rfl
  | _ => cases h

/-- The codec over its whole format: what is encoded is read back whatever follows it and takes the
bytes of its type; what is decoded as numbers or addresses is encoded as the bytes that were read;
and an object is decoded exactly if all the elements that it counts are there. -/
theorem codec_faithful (ty : Ty) (bytes : Bytes) (v : Value) :
    (v.encode ty = .ok bytes → v.isAddressOf ty = false →
      (∀ t, v.encodedLength t ty = .ok bytes.length) ∧
        ∀ rest, ty.decode (bytes ++ rest) = .ok v) ∧
    (ty.isExact = true → ty.decode bytes = .ok v →
      ∃ image, v.encode ty = .ok image ∧ image <+: bytes) ∧
    (∀ width, ty.objectWidth? = some width →
      (Complete bytes width → ∃ v, ty.decode bytes = .ok v ∧
        ∀ items, v = .slice items → items.length = storedCount bytes) ∧
      (¬ Complete bytes width →
        ty.decode bytes = .error (.corruptSlice (neededBytes bytes width) bytes.length))) := by
  refine ⟨fun h hplain => ⟨?_, ?_⟩, encode_decode, fun _ => decode_object⟩
  · exact (encode_length_decode [] h hplain).1
  · exact fun rest => (encode_length_decode rest h hplain).2

/-- Two addresses in a slice of strings, followed by another byte, and cut short. -/
theorem codec_faithful_handles :
    let v := Value.slice [.pointer 16, .pointer 24]
    let bytes : Bytes := [2, 0, 0, 0, 16, 0, 0, 0, 24, 0, 0, 0]
    Ty.decode (bytes ++ [7]) (.slice .str) = .ok v ∧
      (∃ image, v.encode (.slice .str) = .ok image ∧ image <+: bytes) ∧
      (∃ v, Ty.decode bytes (.slice .str) = .ok v ∧
        ∀ items, v = .slice items → items.length = storedCount bytes) ∧
      Ty.decode (bytes.take 5) (.slice .str) = .error (.corruptSlice 12 5) := by
  intro v bytes
  have hwhole := codec_faithful (.slice .str) bytes v
  have hcut := codec_faithful (.slice .str) (bytes.take 5) v
  have hback := (hwhole.1 rfl rfl).2
  exact ⟨hback [7], hwhole.2.1 rfl rfl, (hwhole.2.2 4 rfl).1 (by decide),
    (hcut.2.2 4 rfl).2 (by decide)⟩

end Values

end FlatMachine
