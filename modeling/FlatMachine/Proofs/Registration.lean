import FlatMachine.Native.Library
import FlatMachine.Proofs.Postcondition
import Mathlib.Data.List.Induction
import Mathlib.Data.List.Nodup
import Mathlib.Logic.Equiv.Basic

/-!
# Registering primitives

A table has its primitives in one list and the codes of their names in another. Whatever is
registered, and however often, the two stay in step: no code that was given out ever changes, and as
long as there are codes for all positions, every name leads to the primitive that was registered
under it last.
-/

namespace FlatMachine

theorem codeAt_of_lt {position : Nat} (h : position < UInt32.size) : codeAt position = position :=
  Nat.mod_eq_of_lt h

theorem codeAt_le (position : Nat) : codeAt position ≤ position := Nat.mod_le _ _

/-- Numbers are different if those with the same remainder are. -/
theorem nodup_of_remainders {l : List Nat} {m : Nat} (hm : 0 < m)
    (h : ∀ r < m, (l.filter (· % m == r)).Nodup) : l.Nodup := by
  rw [List.nodup_iff_count_le_one]
  intro n
  have hsame : (l.filter (· % m == n % m)).count n = l.count n :=
    List.count_filter (beq_self_eq_true (n % m))
  exact hsame ▸ List.nodup_iff_count_le_one.mp (h _ (Nat.mod_lt n hm)) n

namespace PrimitiveTable

variable {t : PrimitiveTable} {p : Primitive} {ps : List Primitive} {name : String} {code i : Nat}

theorem has_iff : t.has name = true ↔ ∃ code, t.code? name = some code := Option.isSome_iff_exists

/-! ## One registration -/

/-- A name that is registered again keeps its code. -/
theorem register_of_some (h : t.code? p.name = some code) :
    t.register p = (code, { t with entries := t.entries.set code p }) := by
  unfold register
  rw [h]

/-- A new name has the code of the next position. -/
theorem register_of_none (h : t.code? p.name = none) :
    t.register p = (codeAt t.count,
      { entries := t.entries ++ [p], codes := t.codes ++ [(p.name, codeAt t.count)] }) := by
  unfold register
  rw [h]
  rfl

theorem code?_register : (t.register p).2.code? name =
    if name = p.name then some (t.register p).1 else t.code? name := by
  cases hcode : t.code? p.name with
  | some code =>
    rw [register_of_some hcode]
    split
    · rename_i hname
      exact hname ▸ hcode
    · rfl
  | none =>
    rw [register_of_none hcode]
    unfold code? at hcode ⊢
    rw [List.lookup_append]
    split
    · rename_i hname
      rw [hname, hcode, Option.none_or, List.lookup_cons_self]
    · rename_i hname
      rw [List.lookup_cons, beq_eq_false_iff_ne.mpr hname, List.lookup_nil, Option.or_none]

theorem code?_register_self : (t.register p).2.code? p.name = some (t.register p).1 := by
  rw [code?_register, if_pos rfl]

theorem count_register : (t.register p).2.count =
    if t.has p.name then t.count else t.count + 1 := by
  unfold has
  cases hcode : t.code? p.name with
  | some code =>
    rw [register_of_some hcode]
    exact List.length_set
  | none =>
    rw [register_of_none hcode]
    exact List.length_append

theorem count_le_register (t : PrimitiveTable) (p : Primitive) :
    t.count ≤ (t.register p).2.count := by
  rw [count_register]
  split <;> omega

/-! ## Names and positions -/

/-- The names are different and have the codes of the positions in order. While there are codes for
all positions, these are the names of the primitives in these positions; past that, a name that is
registered again can replace the primitive of another one. -/
structure InStep (t : PrimitiveTable) : Prop where
  nodup : (t.codes.map (·.1)).Nodup
  codes_eq : t.codes.map (·.2) = (List.range t.count).map codeAt
  names_eq : t.count ≤ UInt32.size → t.codes.map (·.1) = t.entries.map (·.name)

namespace InStep

theorem code?_iff_mem (h : t.InStep) : t.code? name = some code ↔ (name, code) ∈ t.codes := by
  have hmem : ∀ {found}, t.code? name = some found → (name, found) ∈ t.codes := by
    intro found hfound
    obtain ⟨front, back, hcodes, -⟩ := List.lookup_eq_some_iff.mp hfound
    rw [hcodes]
    exact List.mem_append_right front List.mem_cons_self
  refine ⟨hmem, fun hcode => ?_⟩
  have hsome : (t.code? name).isSome = true :=
    List.lookup_isSome_iff.mpr ⟨(name, code), hcode, beq_self_eq_true name⟩
  obtain ⟨found, hfound⟩ := Option.isSome_iff_exists.mp hsome
  cases List.inj_on_of_nodup_map h.nodup (hmem hfound) hcode rfl
  exact hfound

theorem code_eq (h : t.InStep) (hcode : t.codes[i]? = some (name, code)) :
    i < t.count ∧ code = codeAt i := by
  have hcodes : (t.codes.map (·.2))[i]? = some code := by
    rw [List.getElem?_map, hcode]
    rfl
  rw [h.codes_eq, List.getElem?_map, Option.map_eq_some_iff] at hcodes
  obtain ⟨position, hposition, rfl⟩ := hcodes
  obtain ⟨hlt, rfl⟩ := List.getElem?_eq_some_iff.mp hposition
  rw [List.length_range] at hlt
  rw [List.getElem_range]
  exact ⟨hlt, rfl⟩

theorem code_lt (h : t.InStep) (hcode : t.code? name = some code) : code < t.count := by
  obtain ⟨i, hi⟩ := List.mem_iff_getElem?.mp (h.code?_iff_mem.mp hcode)
  obtain ⟨hlt, rfl⟩ := h.code_eq hi
  exact (codeAt_le i).trans_lt hlt

/-- The code of a name leads to the primitive of that name. -/
theorem code?_iff_entry (h : t.InStep) (hroom : t.count ≤ UInt32.size) :
    t.code? name = some code ↔ ∃ p, t.entries[code]? = some p ∧ p.name = name := by
  have hnames : t.codes[code]?.map (·.1) = t.entries[code]?.map (·.name) := by
    rw [← List.getElem?_map, h.names_eq hroom, List.getElem?_map]
  rw [h.code?_iff_mem, ← Option.map_eq_some_iff, ← hnames, Option.map_eq_some_iff]
  constructor
  · intro hcode
    obtain ⟨i, hi⟩ := List.mem_iff_getElem?.mp hcode
    obtain ⟨hlt, rfl⟩ := h.code_eq hi
    rw [codeAt_of_lt (hlt.trans_le hroom)] at hi ⊢
    exact ⟨_, hi, rfl⟩
  · rintro ⟨⟨_, found⟩, hfound, rfl⟩
    obtain ⟨hlt, rfl⟩ := h.code_eq hfound
    rw [codeAt_of_lt (hlt.trans_le hroom)] at hfound
    exact List.mem_of_getElem? hfound

/-- No two names have the same code. -/
theorem name_eq (h : t.InStep) (hroom : t.count ≤ UInt32.size) {name' : String}
    (hcode : t.code? name = some code) (hcode' : t.code? name' = some code) : name = name' := by
  obtain ⟨p, hp, rfl⟩ := (h.code?_iff_entry hroom).mp hcode
  obtain ⟨p', hp', rfl⟩ := (h.code?_iff_entry hroom).mp hcode'
  cases hp.symm.trans hp'
  rfl

/-- A primitive that takes the place of one with its name leaves the names in their positions. -/
theorem replace (h : t.InStep) (hcode : t.code? p.name = some code) :
    InStep { t with entries := t.entries.set code p } := by
  have hcount : count { t with entries := t.entries.set code p } = t.count := List.length_set
  refine ⟨h.nodup, hcount ▸ h.codes_eq, fun hroom => ?_⟩
  rw [hcount] at hroom
  obtain ⟨q, hq, hname⟩ := (h.code?_iff_entry hroom).mp hcode
  obtain ⟨hlt, rfl⟩ := List.getElem?_eq_some_iff.mp hq
  have hsame : (t.entries.map (·.name)).set code p.name = t.entries.map (·.name) := by
    rw [← hname, ← List.map_set, List.set_getElem_self]
  rw [h.names_eq hroom, List.map_set, hsame]

/-- A new name comes last, and so does its primitive. -/
theorem append (h : t.InStep) (hcode : t.code? p.name = none) :
    InStep { entries := t.entries ++ [p], codes := t.codes ++ [(p.name, codeAt t.count)] } := by
  have hcount (codes : List (String × Nat)) :
      count { entries := t.entries ++ [p], codes } = t.count + 1 := List.length_append
  refine ⟨?_, ?_, fun hroom => ?_⟩
  · rw [List.map_append, List.nodup_append]
    refine ⟨h.nodup, List.nodup_singleton _, ?_⟩
    rintro other hother _ (_ | ⟨_, ⟨⟩⟩) rfl
    obtain ⟨⟨_, found⟩, hfound, rfl⟩ := List.mem_map.mp hother
    rw [h.code?_iff_mem.mpr hfound] at hcode
    cases hcode
  · rw [hcount, List.map_append, h.codes_eq, List.range_succ, List.map_append]
    rfl
  · rw [hcount] at hroom
    rw [List.map_append, List.map_append, h.names_eq (Nat.le_of_succ_le hroom)]
    rfl

theorem register (h : t.InStep) (p : Primitive) : (t.register p).2.InStep := by
  cases hcode : t.code? p.name with
  | some code =>
    rw [register_of_some hcode]
    exact h.replace hcode
  | none =>
    rw [register_of_none hcode]
    exact h.append hcode

/-- Only the place of the code that is yielded changes. -/
theorem getElem?_register (h : t.InStep) (hroom : (t.register p).2.count ≤ UInt32.size) (i : Nat) :
    (t.register p).2.entries[i]? = if i = (t.register p).1 then some p else t.entries[i]? := by
  cases hcode : t.code? p.name with
  | some code =>
    rw [register_of_some hcode]
    by_cases hi : i = code
    · rw [if_pos hi, hi]
      exact List.getElem?_set_self (h.code_lt hcode)
    · rw [if_neg hi]
      exact List.getElem?_set_ne (Ne.symm hi)
  | none =>
    rw [count_register, if_neg (by simp [has, hcode])] at hroom
    rw [register_of_none hcode, codeAt_of_lt hroom]
    by_cases hi : i = t.count
    · rw [if_pos hi, hi]
      exact List.getElem?_concat_length
    · rw [if_neg hi, List.getElem?_append]
      split
      · rfl
      · rename_i hle
        have hlt : t.entries.length < i := Nat.lt_of_le_of_ne (not_lt.mp hle) (Ne.symm hi)
        rw [List.getElem?_eq_none hlt.le, List.getElem?_eq_none]
        exact Nat.le_sub_of_add_le (Nat.add_comm _ _ ▸ hlt)

/-- A registration does not yield the code of another name. -/
theorem code_ne_register (h : t.InStep) (hroom : (t.register p).2.count ≤ UInt32.size)
    (hname : name ≠ p.name) (hcode : t.code? name = some code) : code ≠ (t.register p).1 := by
  rintro rfl
  have hother : (t.register p).2.code? name = some (t.register p).1 := by
    rw [code?_register, if_neg hname, hcode]
  exact hname ((h.register p).name_eq hroom hother code?_register_self)

end InStep

/-! ## Registrations one after the other -/

theorem registerAll_append (t : PrimitiveTable) (ps later : List Primitive) :
    t.registerAll (ps ++ later) = (t.registerAll ps).registerAll later := List.foldl_append

/-- No registration changes a code that was given out. -/
theorem code?_registerAll (h : t.code? name = some code) (later : List Primitive) :
    (t.registerAll later).code? name = some code := by
  induction later generalizing t with
  | nil => exact h
  | cons p rest ih =>
    apply ih (t := (t.register p).2)
    rw [code?_register]
    split
    · rename_i hname
      rw [register_of_some (hname ▸ h)]
    · exact h

theorem count_le_registerAll (t : PrimitiveTable) (ps : List Primitive) :
    t.count ≤ (t.registerAll ps).count := by
  induction ps generalizing t with
  | nil => exact le_rfl
  | cons p rest ih => exact (t.count_le_register p).trans (ih _)

theorem has_register :
    (t.register p).2.has name = true ↔ t.has name = true ∨ p.name = name := by
  unfold has
  rw [code?_register]
  split
  · simp [*]
  · rename_i hname
    simp [Ne.symm hname]

theorem has_registerAll : (t.registerAll ps).has name = true ↔
    t.has name = true ∨ ∃ p ∈ ps, p.name = name := by
  induction ps generalizing t with
  | nil => simp [registerAll]
  | cons p rest ih =>
    have hrest : (t.registerAll (p :: rest)).has name = true ↔ _ := ih (t := (t.register p).2)
    rw [hrest, has_register]
    simp [or_assoc]

theorem InStep.registerAll (h : t.InStep) (ps : List Primitive) : (t.registerAll ps).InStep := by
  induction ps generalizing t with
  | nil => exact h
  | cons p rest ih => exact ih (h.register p)

/-- The primitive that a name leads to. -/
def named? (t : PrimitiveTable) (name : String) : Option Primitive :=
  (t.code? name).bind fun code => t.entries[code]?

/-- The primitive of that name that comes last. -/
def latest? (ps : List Primitive) (name : String) : Option Primitive :=
  ps.reverse.find? (·.name == name)

theorem latest?_cons : latest? (p :: ps) name =
    (latest? ps name).or (if p.name = name then some p else none) := by
  unfold latest?
  rw [List.reverse_cons, List.find?_append, List.find?_singleton]
  simp only [beq_iff_eq]

theorem InStep.named?_register (h : t.InStep) (hroom : (t.register p).2.count ≤ UInt32.size) :
    (t.register p).2.named? name = if p.name = name then some p else t.named? name := by
  unfold named?
  rw [code?_register]
  by_cases hname : name = p.name
  · rw [if_pos hname, if_pos hname.symm, Option.bind_some, h.getElem?_register hroom, if_pos rfl]
  · rw [if_neg hname, if_neg (Ne.symm hname)]
    cases hcode : t.code? name with
    | none => rfl
    | some code =>
      rw [Option.bind_some, Option.bind_some, h.getElem?_register hroom,
        if_neg (h.code_ne_register hroom hname hcode)]

theorem InStep.named?_registerAll (h : t.InStep) (hroom : (t.registerAll ps).count ≤ UInt32.size) :
    (t.registerAll ps).named? name = (latest? ps name).or (t.named? name) := by
  induction ps generalizing t with
  | nil => rfl
  | cons p rest ih =>
    have hfirst : (t.register p).2.count ≤ UInt32.size := (count_le_registerAll _ rest).trans hroom
    have hrest : (t.registerAll (p :: rest)).named? name = _ := ih (h.register p) hroom
    rw [hrest, h.named?_register hfirst, latest?_cons, Option.or_assoc]
    split <;> simp

/-! ## The tables to start from -/

theorem inStep_empty : empty.InStep := ⟨List.nodup_nil, rfl, fun _ => rfl⟩

/-- Primitives of different names are registered one behind the other. -/
theorem registerAll_empty (h : (ps.map (·.name)).Nodup) :
    empty.registerAll ps = { entries := ps } := by
  induction ps using List.reverseRecOn with
  | nil => rfl
  | append_singleton ps p ih =>
    rw [List.map_append, List.nodup_append] at h
    obtain ⟨hps, -, hnew⟩ := h
    have hnone : code? { entries := ps } p.name = none := by
      rw [code?, List.lookup_eq_none_iff]
      intro pair hpair
      obtain ⟨⟨q, i⟩, hq, rfl⟩ := List.mem_map.mp hpair
      have hmem : q.name ∈ ps.map (·.name) := List.mem_map_of_mem (List.fst_mem_of_mem_zipIdx hq)
      exact bne_iff_ne.mpr (Ne.symm (hnew _ hmem _ List.mem_cons_self))
    rw [registerAll_append, ih hps]
    have hone : registerAll { entries := ps } [p] = (register { entries := ps } p).2 := rfl
    rw [hone, register_of_none hnone]
    simp [List.zipIdx_append, count]

/-- The primitives of the library have different names. -/
theorem nodup_library : (library.map (·.name)).Nodup :=
  .of_map (fun name => LittleEndian.decode name.toByteArray.data.toList)
    -- Comparing every two of the names takes the kernel ten times as long.
    (nodup_of_remainders (m := 23) (by decide) (by decide +kernel))

/-- The empty table and the standard one, with what was registered in them. -/
inductive Begins : PrimitiveTable → List Primitive → Prop where
  | empty : Begins empty []
  | standard : Begins standard library

theorem Begins.eq_registerAll {start : PrimitiveTable} {initial : List Primitive}
    (h : Begins start initial) : start = PrimitiveTable.empty.registerAll initial := by
  cases h with
  | empty => rfl
  | standard =>
    rw [registerAll_empty nodup_library]
    rfl

/-! ## Codes and names -/

/-- Lookups, operators and registrations of the name yield the code. -/
structure Yields (t : PrimitiveTable) (name : String) (code : Nat) : Prop where
  code_eq : t.code name = .ok code
  operator_eq : ∃ p, t.get code = .ok p ∧
    t.operator name = .ok (.native code p.name p.signature)
  register_eq : ∀ p, p.name = name → (t.register p).1 = code

theorem InStep.yields (h : t.InStep) (hcode : t.code? name = some code) : t.Yields name code where
  code_eq := code_eq_ok.mpr hcode
  operator_eq := by
    have hlt : code < t.entries.length := h.code_lt hcode
    have hget : t.get code = .ok t.entries[code] :=
      get_eq_ok.mpr (List.getElem?_eq_getElem hlt)
    exact ⟨_, hget,
      bind_eq_ok.mpr ⟨code, code_eq_ok.mpr hcode, bind_eq_ok.mpr ⟨_, hget, rfl⟩⟩⟩
  register_eq p hname := by rw [register_of_some (hname ▸ hcode)]

theorem code_register_of_ne (h : name ≠ p.name) : (t.register p).2.code name = t.code name := by
  unfold PrimitiveTable.code
  rw [code?_register, if_neg h]

theorem InStep.get_register (h : t.InStep) (hroom : (t.register p).2.count ≤ UInt32.size) :
    (t.register p).2.get (t.register p).1 = .ok p := by
  rw [get_eq_ok, h.getElem?_register hroom, if_pos rfl]

theorem InStep.get_register_of_ne (h : t.InStep) (hroom : (t.register p).2.count ≤ UInt32.size)
    (hcode : code ≠ (t.register p).1) : (t.register p).2.get code = t.get code := by
  unfold PrimitiveTable.get
  rw [h.getElem?_register hroom, if_neg hcode]

theorem InStep.operator_register_of_ne (h : t.InStep)
    (hroom : (t.register p).2.count ≤ UInt32.size) (hname : name ≠ p.name) :
    (t.register p).2.operator name = t.operator name := by
  unfold operator
  rw [code_register_of_ne hname]
  cases hcode : t.code name with
  | error e => rfl
  | ok code =>
    have hne := h.code_ne_register hroom hname (code_eq_ok.mp hcode)
    change (t.register p).2.get code >>= _ = t.get code >>= _
    rw [h.get_register_of_ne hroom hne]

/-- The names of the table are numbered by their codes. -/
structure Numbered (t : PrimitiveTable) : Prop where
  nodup_names : t.names.Nodup
  mem_names : ∀ name, name ∈ t.names ↔ t.has name = true
  exists_equiv : ∃ number : {name // name ∈ t.names} ≃ Fin t.count,
    ∀ name, t.code name.1 = .ok (number name).1

theorem InStep.mem_names (h : t.InStep) : name ∈ t.names ↔ t.has name = true := by
  rw [names, List.mem_mergeSort, has_iff, List.mem_map]
  constructor
  · rintro ⟨⟨_, code⟩, hcode, rfl⟩
    exact ⟨code, h.code?_iff_mem.mpr hcode⟩
  · rintro ⟨code, hcode⟩
    exact ⟨_, h.code?_iff_mem.mp hcode, rfl⟩

theorem InStep.numbered (h : t.InStep) (hroom : t.count ≤ UInt32.size) : t.Numbered where
  nodup_names := (List.mergeSort_perm _ _).nodup_iff.mpr h.nodup
  mem_names _ := h.mem_names
  exists_equiv := by
    have hexists : ∀ name : {name // name ∈ t.names}, ∃ code : Fin t.count,
        t.code? name.1 = some code.1 := by
      intro name
      obtain ⟨code, hcode⟩ := has_iff.mp (h.mem_names.mp name.2)
      exact ⟨⟨code, h.code_lt hcode⟩, hcode⟩
    choose number hnumber using hexists
    have hbijective : Function.Bijective number := by
      constructor
      · intro name name' heq
        exact Subtype.ext (h.name_eq hroom (hnumber name) (heq ▸ hnumber name'))
      · intro code
        have hcode := (h.code?_iff_entry hroom).mpr ⟨_, List.getElem?_eq_getElem code.2, rfl⟩
        refine ⟨⟨_, h.mem_names.mpr (has_iff.mpr ⟨_, hcode⟩)⟩, Fin.ext ?_⟩
        exact Option.some.inj ((hnumber _).symm.trans hcode)
    exact ⟨.ofBijective number hbijective, fun name => code_eq_ok.mpr (hnumber name)⟩

end PrimitiveTable

open PrimitiveTable

/-- Whatever is registered in the empty table or in the standard one, and however often: the names
that were registered have codes, and the code that a lookup or a registration of a name yields is
what every lookup, operator and registration of the name yields after any later registrations. As
long as there are codes for all positions, the codes number the names from 0 on, a name leads to the
primitive that was registered under it last, and a registration changes nothing that belongs to
another code or name. -/
theorem codes_stable {start : PrimitiveTable} {initial : List Primitive}
    (hstart : Begins start initial) (ps : List Primitive) :
    let t := start.registerAll ps
    (∀ name, (∃ code, t.code name = .ok code) ↔ ∃ p ∈ initial ++ ps, p.name = name) ∧
    (∀ name code, t.code name = .ok code → ∀ later, (t.registerAll later).Yields name code) ∧
    (t.count ≤ UInt32.size → t.Numbered ∧ ∀ name code, t.code name = .ok code →
      ∃ p, t.get code = .ok p ∧ latest? (initial ++ ps) name = some p ∧ p.name = name) ∧
    ∀ p, let code := (t.register p).1
      let u := (t.register p).2
      (∀ later, (u.registerAll later).Yields p.name code) ∧
      (∀ name ≠ p.name, u.code name = t.code name) ∧
      (u.count ≤ UInt32.size → u.get code = .ok p ∧ (∀ other ≠ code, u.get other = t.get other) ∧
        ∀ name ≠ p.name, u.operator name = t.operator name) := by
  intro t
  have ht : t = PrimitiveTable.empty.registerAll (initial ++ ps) := by
    rw [registerAll_append, ← hstart.eq_registerAll]
  have hstep : t.InStep := ht ▸ inStep_empty.registerAll _
  refine ⟨fun name => ?_, fun name code hcode later => ?_, fun hroom => ⟨?_, ?_⟩,
    fun p => ⟨fun later => ?_, fun name hname => ?_, fun hroom => ⟨?_, ?_, ?_⟩⟩⟩
  · simp only [code_eq_ok, ← has_iff]
    rw [ht, has_registerAll]
    exact or_iff_right Bool.false_ne_true
  · exact (hstep.registerAll later).yields (code?_registerAll (code_eq_ok.mp hcode) later)
  · exact hstep.numbered hroom
  · intro name code hcode
    rw [code_eq_ok] at hcode
    obtain ⟨p, hp, hname⟩ := (hstep.code?_iff_entry hroom).mp hcode
    have hnamed : t.named? name = latest? (initial ++ ps) name := by
      rw [ht] at hroom ⊢
      rw [inStep_empty.named?_registerAll hroom]
      exact Option.or_none
    rw [named?, hcode, Option.bind_some, hp] at hnamed
    exact ⟨p, get_eq_ok.mpr hp, hnamed.symm, hname⟩
  · have hlater : ((t.register p).2.registerAll later).InStep :=
      (hstep.register p).registerAll later
    exact hlater.yields (code?_registerAll code?_register_self later)
  · exact code_register_of_ne hname
  · exact hstep.get_register hroom
  · exact fun other hother => hstep.get_register_of_ne hroom hother
  · exact fun name hname => hstep.operator_register_of_ne hroom hname

/-- An operator that is new, and one that takes the place of the copy. -/
def extension : List Primitive := [
  ⟨"test.noop", .of [.i64] [], .compute fun s _ => .ok s.noOutputs⟩,
  { identity with signature := {} }]

/-- The library with the extension has one more code. The copy keeps its own, under which the
replacement is found until the copy is registered again. -/
theorem codes_stable_extension :
    let t := PrimitiveTable.standard.registerAll extension
    t.count = 290 ∧ t.Numbered ∧ (t.registerAll [identity]).Yields "identity" 0 ∧
    (∃ p, t.get 0 = .ok p ∧ latest? (library ++ extension) "identity" = some p ∧
      p.signature = {}) ∧
    (t.register identity).1 = 0 ∧ (t.register identity).2.get 0 = .ok identity := by
  intro t
  have hcount : t.count = 290 := by decide +kernel
  have hcode : t.code? "identity" = some 0 := by decide +kernel
  obtain ⟨-, hyields, hnumbered, hone⟩ := codes_stable .standard extension
  have hroom : t.count ≤ UInt32.size := hcount ▸ by decide
  obtain ⟨hnumbers, hlatest⟩ := hnumbered hroom
  obtain ⟨p, hget, hp, -⟩ := hlatest "identity" 0 (code_eq_ok.mpr hcode)
  have hsame : (t.register identity).2.count = t.count :=
    count_register.trans (if_pos (has_iff.mpr ⟨0, hcode⟩))
  have hfirst : (t.register identity).1 = 0 := by rw [register_of_some hcode]
  obtain ⟨hback, -, -⟩ := (hone identity).2.2 (hsame.trans_le hroom)
  refine ⟨hcount, hnumbers, hyields "identity" 0 (code_eq_ok.mpr hcode) [identity],
    ⟨p, hget, hp, ?_⟩, hfirst, hfirst ▸ hback⟩
  have hreplaced : latest? (library ++ extension) "identity" =
      some { identity with signature := {} } := by
    rw [latest?, List.reverse_append, List.find?_append]
    rfl
  cases hp.symm.trans hreplaced
  rfl

end FlatMachine
