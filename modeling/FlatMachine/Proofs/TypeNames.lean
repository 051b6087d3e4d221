import FlatMachine.Proofs.Postcondition
import FlatMachine.Ty.Reading

/-!
# Type names are read back

The name of a type contains no blanks, and each of its parts tells by its first character what it
is: `[]` and `*` start no word, and a digit follows the bracket of an array. So reading the name of a
type yields the type, provided that its structs have names that could be read at all: words that do
not name a built-in type. Reading yields no other types, whatever blanks, plus signs, leading zeros
or other spellings of `u8` the text has.
-/

namespace FlatMachine

namespace Text

/-- The blank characters. -/
def blanks : List Char :=
  ([9, 10, 11, 12, 13, 0x20, 0x85, 0xA0, 0x1680, 0x2000, 0x2001, 0x2002, 0x2003, 0x2004, 0x2005,
    0x2006, 0x2007, 0x2008, 0x2009, 0x200A, 0x2028, 0x2029, 0x202F, 0x205F, 0x3000] :
    List Nat).map Char.ofNat

theorem mem_blanks {c : Char} (h : isBlank c = true) : c ∈ blanks := by
  rw [← Char.ofNat_toNat c]
  apply List.mem_map_of_mem
  simp only [isBlank, Bool.or_eq_true, Bool.and_eq_true, decide_eq_true_eq, beq_iff_eq] at h
  simp only [List.mem_cons, List.not_mem_nil, or_false]
  omega

theorem forall_not_isBlank {cs : List Char} (h : cs.any isBlank = false) :
    ∀ c ∈ cs, isBlank c = false :=
  fun c hc => Bool.eq_false_iff.mpr (List.any_eq_false.mp h c hc)

theorem trim_of_forall {cs : List Char} (h : ∀ c ∈ cs, isBlank c = false) : trim cs = cs := by
  have hkeep : ∀ l : List Char, (∀ c ∈ l, isBlank c = false) → l.dropWhile isBlank = l := by
    intro l hl
    cases l with
    | nil => rfl
    | cons c rest =>
      have hc : isBlank c = false := hl c List.mem_cons_self
      exact List.dropWhile_cons_of_neg (hc ▸ Bool.false_ne_true)
  unfold trim trimEnd trimStart
  rw [hkeep cs h, hkeep cs.reverse fun c hc => h c (List.mem_reverse.mp hc), List.reverse_reverse]

end Text

theorem decimal?_eq {cs : List Char} (h : ∀ c ∈ cs, c.isDigit = true) (acc : Nat) :
    decimal? acc cs = some (Nat.ofDigitChars 10 cs acc) := by
  induction cs generalizing acc with
  | nil => rfl
  | cons c rest ih =>
    obtain ⟨hc, hrest⟩ := List.forall_mem_cons.mp h
    rw [decimal?, if_pos hc, ih hrest, Nat.ofDigitChars_cons, Nat.mul_comm]
    rfl

theorem isDigit_of_mem_repr {n : Nat} {c : Char} (h : c ∈ n.repr.toList) : c.isDigit = true := by
  rw [Nat.toList_repr] at h
  exact Nat.isDigit_of_mem_toDigits (by decide) (by decide) h

theorem toList_repr_ne_nil (n : Nat) : n.repr.toList ≠ [] := by
  rw [Nat.toList_repr]
  exact Nat.toDigits_ne_nil

theorem decimal?_repr (n : Nat) : decimal? 0 n.repr.toList = some n := by
  rw [decimal?_eq fun _ hc => isDigit_of_mem_repr hc, Nat.toList_repr,
    Nat.ofDigitChars_toDigits (by decide) (by decide)]

namespace Ty

/-- The words that name built-in types. -/
def builtinWords : List String :=
  ["bool", "i8", "i16", "i32", "i64", "u8", "byte", "u16", "u32", "u64", "f32", "f64", "str"]

/-- A word of name characters that names no built-in type. -/
def isStructName (name : String) : Bool :=
  name != "" && name.toList.all isNameChar && !builtinWords.contains name

/-- The type is known at every depth, and its structs have names that can be read. -/
def isWellNamed : Ty → Bool
  | undefined => false
  | array elem _ | slice elem => elem.isWellNamed
  | pointer target => target.isWellNamed
  | struct name => isStructName name
  | _ => true

theorem isStructName_iff {name : String} : isStructName name = true ↔
    name ≠ "" ∧ (∀ c ∈ name.toList, isNameChar c = true) ∧ name ∉ builtinWords := by
  simp only [isStructName, Bool.and_eq_true, bne_iff_ne, List.all_eq_true, Bool.not_eq_true',
    List.contains_eq_mem, decide_eq_false_iff_not, and_assoc]

/-! ## Words -/

theorem not_isBlank_of_isNameChar {c : Char} (h : isNameChar c = true) :
    Text.isBlank c = false := by
  have hnone : Text.blanks.any isNameChar = false := by decide +kernel
  cases hblank : Text.isBlank c with
  | false => rfl
  | true => exact absurd h (List.any_eq_false.mp hnone c (Text.mem_blanks hblank))

theorem isNameChar_of_isDigit {c : Char} (h : c.isDigit = true) : isNameChar c = true := by
  simp only [isNameChar, Text.isAlphanumeric, Char.isAlphanum, h, Bool.or_true, Bool.true_or]

theorem isWellNamed_of_ofWord? {word : String} {t : Ty} (h : ofWord? word = some t) :
    t.isWellNamed = true := by
  unfold ofWord? at h
  split at h
  case h_14 => cases h
  case h_15 =>
    split at h
    · rename_i hall
      cases h
      refine isStructName_iff.mpr ⟨‹_›, List.all_eq_true.mp hall, ?_⟩
      simp only [builtinWords, List.mem_cons, List.not_mem_nil, or_false, not_or]
      exact ⟨‹_›, ‹_›, ‹_›, ‹_›, ‹_›, ‹_›, ‹_›, ‹_›, ‹_›, ‹_›, ‹_›, ‹_›, ‹_›⟩
    · cases h
  all_goals
    cases h
    rfl

theorem ofWord?_struct {name : String} (h : isStructName name = true) :
    ofWord? name = some (struct name) := by
  obtain ⟨hne, hall, hnot⟩ := isStructName_iff.mp h
  unfold ofWord?
  split
  case h_14 => exact absurd rfl hne
  case h_15 => exact if_pos (List.all_eq_true.mpr hall)
  all_goals exact absurd (by decide) hnot

theorem ofWord?_int (kind : IntKind) : ofWord? kind.name = some (int kind) := by
  cases kind <;> rfl

theorem ofWord?_float (kind : FloatKind) : ofWord? kind.name = some (float kind) := by
  cases kind <;> rfl

/-! ## Brackets -/

theorem splitBracket?_append {before : List Char} (h : ∀ c ∈ before, c ≠ ']') (after : List Char) :
    splitBracket? (before ++ ']' :: after) = some (before, after) := by
  induction before with
  | nil => rfl
  | cons c rest ih =>
    obtain ⟨hc, hrest⟩ := List.forall_mem_cons.mp h
    rw [List.cons_append, splitBracket?.eq_3 _ _ hc, ih hrest]
    rfl

theorem length?_repr (n : UInt32) : length? n.toNat.repr.toList = some n := by
  have hsign : ∀ rest, n.toNat.repr.toList ≠ '+' :: rest := by
    intro rest h
    have hplus : '+' ∈ n.toNat.repr.toList := h ▸ List.mem_cons_self
    exact absurd (isDigit_of_mem_repr hplus) (by decide)
  have hunsigned : length? n.toNat.repr.toList = if n.toNat.repr.toList.isEmpty then none
      else (decimal? 0 n.toNat.repr.toList).bind fun n =>
        if n ≤ Size.maxHandle then some (UInt32.ofNat n) else none := by
    unfold length?
    split
    · exact absurd ‹_› (hsign _)
    · rfl
  have hle : n.toNat ≤ Size.maxHandle := Nat.le_of_lt_succ n.toNat_lt
  rw [hunsigned, if_neg (by rw [List.isEmpty_iff]; exact toList_repr_ne_nil _), decimal?_repr,
    Option.bind_some, if_pos hle, UInt32.ofNat_toNat]

section Reading

variable {cs rest before after : List Char}

theorem ofChars?_slice (h : Text.trim cs = '[' :: ']' :: rest) :
    ofChars? cs = (ofChars? rest).map slice := by
  rw [ofChars?]
  split <;> simp_all

theorem ofChars?_pointer (h : Text.trim cs = '*' :: rest) :
    ofChars? cs = (ofChars? rest).map pointer := by
  rw [ofChars?]
  split <;> simp_all

theorem ofChars?_array (h : Text.trim cs = '[' :: (before ++ ']' :: after)) (hne : before ≠ [])
    (hbefore : ∀ c ∈ before, c ≠ ']') :
    ofChars? cs = (length? before).bind fun length => (ofChars? after).map (array · length) := by
  have hsplit := splitBracket?_append hbefore after
  rw [ofChars?]
  split
  case h_1 tail heq =>
    obtain ⟨c, rest, rfl⟩ := List.exists_cons_of_ne_nil hne
    rw [h, List.cons_append, List.cons.injEq, List.cons.injEq] at heq
    exact absurd heq.2.1 (hbefore c List.mem_cons_self)
  case h_2 tail heq =>
    rw [h] at heq
    cases heq
  case h_3 tail _ heq =>
    obtain rfl : before ++ ']' :: after = tail := by
      rw [h] at heq
      exact (List.cons.inj heq).2
    split
    · rename_i hnone
      rw [hsplit] at hnone
      cases hnone
    · rename_i hsome
      rw [hsplit] at hsome
      cases hsome
      rfl
  case h_4 hbracket => exact absurd h (hbracket _)

theorem ofChars?_word (hbracket : ∀ tail, Text.trim cs ≠ '[' :: tail)
    (hstar : ∀ tail, Text.trim cs ≠ '*' :: tail) :
    ofChars? cs = ofWord? (String.ofList (Text.trim cs)) := by
  rw [ofChars?]
  split
  case h_1 heq => exact absurd heq (hbracket _)
  case h_2 heq => exact absurd heq (hstar _)
  case h_3 heq => exact absurd heq (hbracket _)
  case h_4 => rfl

end Reading

theorem isWellNamed_of_ofChars? {cs : List Char} {t : Ty} (h : ofChars? cs = some t) :
    t.isWellNamed = true := by
  fun_induction ofChars? cs generalizing t with
  | case1 cs rest _ _ ih =>
    obtain ⟨elem, helem, rfl⟩ := Option.map_eq_some_iff.mp h
    have hnamed := ih helem
    exact hnamed
  | case2 cs rest _ _ ih =>
    obtain ⟨target, htarget, rfl⟩ := Option.map_eq_some_iff.mp h
    have hnamed := ih htarget
    exact hnamed
  | case3 => cases h
  | case4 cs rest _ _ before after _ _ ih =>
    obtain ⟨length, -, h⟩ := Option.bind_eq_some_iff.mp h
    obtain ⟨elem, helem, rfl⟩ := Option.map_eq_some_iff.mp h
    have hnamed := ih helem
    exact hnamed
  | case5 => exact isWellNamed_of_ofWord? h

/-! ## Names -/

theorem text_array (elem : Ty) (length : UInt32) : (array elem length).text.toList =
    '[' :: (length.toNat.repr.toList ++ ']' :: elem.text.toList) := by
  simp only [text, String.toList_append, Nat.toString_eq_repr]
  simp [toString]

theorem text_slice (elem : Ty) : (slice elem).text.toList = '[' :: ']' :: elem.text.toList := by
  rw [text, String.toList_append]
  rfl

theorem text_pointer (target : Ty) : (pointer target).text.toList = '*' :: target.text.toList := by
  rw [text, String.toList_append]
  rfl

/-- The name of a well-named type contains no blank. -/
theorem not_isBlank_of_mem_text {t : Ty} (h : t.isWellNamed = true) :
    ∀ c ∈ t.text.toList, Text.isBlank c = false := by
  induction t with
  | undefined => cases h
  | bool | str => exact Text.forall_not_isBlank (by decide)
  | int kind => exact Text.forall_not_isBlank (by cases kind <;> decide)
  | float kind => exact Text.forall_not_isBlank (by cases kind <;> decide)
  | array elem length ih =>
    have hdigits : ∀ c ∈ length.toNat.repr.toList, Text.isBlank c = false := fun c hc =>
      not_isBlank_of_isNameChar (isNameChar_of_isDigit (isDigit_of_mem_repr hc))
    rw [text_array, List.forall_mem_cons, List.forall_mem_append, List.forall_mem_cons]
    exact ⟨by decide, hdigits, by decide, ih h⟩
  | slice elem ih =>
    rw [text_slice, List.forall_mem_cons, List.forall_mem_cons]
    exact ⟨by decide, by decide, ih h⟩
  | pointer target ih =>
    rw [text_pointer, List.forall_mem_cons]
    exact ⟨by decide, ih h⟩
  | struct name =>
    exact fun c hc => not_isBlank_of_isNameChar ((isStructName_iff.mp h).2.1 c hc)

/-- A word of name characters is read as a word. -/
theorem ofChars?_name {word : String} {t : Ty} (h : ofWord? word = some t)
    (hall : word.toList.all isNameChar = true) : ofChars? word.toList = some t := by
  replace hall := List.all_eq_true.mp hall
  have htrim : Text.trim word.toList = word.toList :=
    Text.trim_of_forall fun c hc => not_isBlank_of_isNameChar (hall c hc)
  have hfirst : ∀ c tail, isNameChar c = false → Text.trim word.toList ≠ c :: tail := by
    intro c tail hc hstarts
    rw [htrim] at hstarts
    rw [hall c (hstarts ▸ List.mem_cons_self)] at hc
    cases hc
  rw [ofChars?_word (fun tail => hfirst '[' tail (by decide +kernel))
    (fun tail => hfirst '*' tail (by decide +kernel)), htrim, String.ofList_toList, h]

theorem ofChars?_text {t : Ty} (h : t.isWellNamed = true) : ofChars? t.text.toList = some t := by
  induction t with
  | undefined => cases h
  | bool => exact ofChars?_name rfl (by decide)
  | str => exact ofChars?_name rfl (by decide)
  | int kind => exact ofChars?_name (ofWord?_int kind) (by cases kind <;> decide)
  | float kind => exact ofChars?_name (ofWord?_float kind) (by cases kind <;> decide)
  | array elem length ih =>
    have htrim := Text.trim_of_forall (not_isBlank_of_mem_text h)
    rw [text_array] at htrim ⊢
    have hclose : ∀ c ∈ length.toNat.repr.toList, c ≠ ']' := by
      rintro _ hc rfl
      exact absurd (isDigit_of_mem_repr hc) (by decide)
    rw [ofChars?_array htrim (toList_repr_ne_nil _) hclose, length?_repr, Option.bind_some, ih h]
    rfl
  | slice elem ih =>
    have htrim := Text.trim_of_forall (not_isBlank_of_mem_text h)
    rw [text_slice] at htrim ⊢
    rw [ofChars?_slice htrim, ih h]
    rfl
  | pointer target ih =>
    have htrim := Text.trim_of_forall (not_isBlank_of_mem_text h)
    rw [text_pointer] at htrim ⊢
    rw [ofChars?_pointer htrim, ih h]
    rfl
  | struct name =>
    exact ofChars?_name (ofWord?_struct h) (List.all_eq_true.mpr (isStructName_iff.mp h).2.1)

end Ty

/-- The name of a well-named type is read as that type; and whatever text is read as a type, the
type is well named, so that its name can stand for the text. -/
theorem type_names_read_back :
    (∀ t : Ty, t.isWellNamed = true → Ty.ofText? t.text = some t) ∧
    ∀ s t, Ty.ofText? s = some t → t.isWellNamed = true ∧ Ty.ofText? t.text = some t := by
  refine ⟨fun t h => Ty.ofChars?_text h, fun s t h => ?_⟩
  have hnamed := Ty.isWellNamed_of_ofChars? h
  exact ⟨hnamed, Ty.ofChars?_text hnamed⟩

/-- A text with blanks, a plus sign, leading zeros and another name of `u8`, and a type with the
longest array of structs. -/
theorem type_names_read_back_spaced :
    Ty.ofText? " [+003] *[]\tbyte " = some (.array (.pointer (.slice .u8)) 3) ∧
    (Ty.array (.pointer (.slice .u8)) 3).text = "[3]*[]u8" ∧
    Ty.ofText? "[3]*[]u8" = some (.array (.pointer (.slice .u8)) 3) ∧
    Ty.ofText? (Ty.array (.struct "größe_2") 4294967295).text =
      some (.array (.struct "größe_2") 4294967295) := by
  have hread : Ty.ofText? " [+003] *[]\tbyte " = some (.array (.pointer (.slice .u8)) 3) := by
    decide +kernel
  have hname : (Ty.array (.pointer (.slice .u8)) 3).text = "[3]*[]u8" := by decide
  exact ⟨hread, hname, hname ▸ (type_names_read_back.2 _ _ hread).2,
    type_names_read_back.1 _ (by decide +kernel)⟩

end FlatMachine
