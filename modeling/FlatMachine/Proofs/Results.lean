import FlatMachine.Proofs.Atomicity
import FlatMachine.Proofs.CallStack
import FlatMachine.Proofs.DeclaredSlots

/-!
# Results of nodes

What an operator stages, and what a callee returns, goes to the places of the node's outputs, one
after another. So a place holds its result when all is done, unless a later output shares a byte
with it. A string or slice is stored as an object above everything that a place can be part of.
-/

namespace FlatMachine

open FlatMachine.Action

section Writes

variable {a : Arena} {w : Nat × Bytes} {writes front back : List (Nat × Bytes)}

namespace Arena

theorem written_append : a.written (front ++ back) = (a.written front).written back := by
  induction front generalizing a with
  | nil => rfl
  | cons w front ih => exact ih

theorem heapPointer_written : (a.written writes).heapPointer = a.heapPointer := by
  induction writes generalizing a with
  | nil => rfl
  | cons w rest ih =>
    rw [written, ih]
    exact size_overlay ..

/-- A byte that no write is for. -/
theorem getElem?_written {i : Nat} (h : ∀ w ∈ writes, i < w.1 ∨ w.1 + w.2.length ≤ i) :
    (a.written writes).image[i]? = a.image[i]? := by
  induction writes generalizing a with
  | nil => rfl
  | cons w rest ih =>
    rw [written, ih fun w' hw' => h w' (List.mem_cons_of_mem _ hw')]
    exact getElem?_overlay_of_lt (h w List.mem_cons_self)

/-- The bytes of a write are there in the end, unless a later write is for some of them. -/
theorem stores_written (h : a.Holds w) (hback : ∀ w' ∈ back, ∀ i, w.1 ≤ i → i < w.1 + w.2.length →
    i < w'.1 ∨ w'.1 + w'.2.length ≤ i) : (a.written (front ++ w :: back)).Stores w.1 w.2 := by
  intro i hi
  have hle : w.1 + w.2.length ≤ (a.written front).heapPointer := by
    rw [heapPointer_written]
    exact h
  rw [written_append, written,
    getElem?_written fun w' hw' => hback w' hw' _ (Nat.le_add_right ..) (by omega)]
  exact (overlay_stored hle rfl).2 i hi

end Arena

end Writes

namespace Pending

variable {a b c : Arena} {p : Pending} {ps : List Pending} {w : Nat × Bytes}

/-- Where it is written. -/
def offset : Pending → Nat
  | bytes offset _ | object offset _ => offset

/-- The bytes are in memory; an object is, and a handle to it. -/
def HeldBy (p : Pending) (a : Arena) : Prop :=
  match p with
  | bytes offset content => a.read offset content.length = .ok content
  | object offset content =>
    ∃ handle, a.readHandle offset = .ok handle ∧ a.Stores handle content

/-- On `c`, reached from `a`, this write is left to be made: an object for it is stored above
everything that was allocated on `a`. -/
def Settled (p : Pending) (a c : Arena) (w : Nat × Bytes) : Prop :=
  match p with
  | bytes offset content => w = (offset, content)
  | object offset content => ∃ handle, w.1 = offset ∧ encodeHandle handle = .ok w.2 ∧
      a.heapPointer ≤ handle ∧ c.Stores handle content

theorem Settled.mono (h : p.Settled b c w) (hle : a.heapPointer ≤ b.heapPointer) :
    p.Settled a c w := by
  cases p with
  | bytes => exact h
  | object =>
    obtain ⟨handle, hoffset, hencoded, habove, hstores⟩ := h
    exact ⟨handle, hoffset, hencoded, hle.trans habove, hstores⟩

theorem Settled.of_extends (h : p.Settled a b w) (hext : b.Extends c) : p.Settled a c w := by
  cases p with
  | bytes => exact h
  | object =>
    obtain ⟨handle, hoffset, hencoded, habove, hstores⟩ := h
    exact ⟨handle, hoffset, hencoded, habove, hstores.of_extends hext⟩

theorem Settled.range (h : p.Settled a c w) : w.1 = p.offset ∧ w.2.length = p.width := by
  cases p with
  | bytes =>
    cases h
    exact ⟨rfl, rfl⟩
  | object =>
    obtain ⟨handle, hoffset, hencoded, -, -⟩ := h
    obtain ⟨-, hbytes⟩ := encodeHandle_eq_ok.mp hencoded
    exact ⟨hoffset, hbytes ▸ LittleEndian.length_encode ..⟩

theorem ends_settle : Ends p.settle a (fun w c => a.Extends c ∧ p.Settled a c w)
    (fun _ _ => True) := by
  cases p with
  | bytes => exact ⟨.refl a, rfl⟩
  | object offset content =>
    simp only [settle, ends_bind, ends_ofExcept, ends_pure]
    apply Arena.ends_store_bytes.mono ?_ fun _ _ _ => trivial
    rintro handle c ⟨rfl, hext, hstores⟩
    exact gives_of_ok (fun _ hencoded => ⟨hext, _, rfl, hencoded, le_rfl, hstores⟩) fun _ => trivial

theorem ends_settleAll : Ends (settleAll ps) a
    (fun writes c => a.Extends c ∧ List.Forall₂ (fun p w => p.Settled a c w) ps writes)
    (fun _ _ => True) := by
  induction ps generalizing a with
  | nil => exact ⟨.refl a, .nil⟩
  | cons p rest ih =>
    simp only [settleAll, ends_bind, ends_pure]
    apply ends_settle.mono ?_ fun _ _ _ => trivial
    rintro w b ⟨hb, hw⟩
    apply ih.mono ?_ fun _ _ _ => trivial
    rintro writes c ⟨hc, hwrites⟩
    refine ⟨hb.trans hc, .cons (hw.of_extends hc) ?_⟩
    exact hwrites.imp fun _ _ hsettled => hsettled.mono hb.heapPointer_le

/-- Without objects there is nothing to store. -/
theorem settleAll_of_bytes (h : ∀ p ∈ ps, ∃ offset content, p = bytes offset content) :
    ∃ writes, settleAll ps a = .ok writes a := by
  induction ps with
  | nil => exact ⟨[], rfl⟩
  | cons p rest ih =>
    obtain ⟨⟨offset, content, rfl⟩, hrest⟩ := List.forall_mem_cons.mp h
    obtain ⟨writes, hwrites⟩ := ih hrest
    refine ⟨(offset, content) :: writes, seq_eq_ok.mpr ⟨(offset, content), a, rfl, ?_⟩⟩
    exact seq_eq_ok.mpr ⟨writes, a, hwrites, rfl⟩

/-- After writes below the objects it is in memory, if no later one undoes its own write. -/
theorem Settled.heldBy {front back : List (Nat × Bytes)} (h : p.Settled a c w) (hholds : c.Holds w)
    (hbelow : ∀ w' ∈ front ++ w :: back, w'.1 + w'.2.length ≤ a.heapPointer)
    (hback : ∀ w' ∈ back, ∀ i, w.1 ≤ i → i < w.1 + w.2.length →
      i < w'.1 ∨ w'.1 + w'.2.length ≤ i) : p.HeldBy (c.written (front ++ w :: back)) := by
  have hstored : (c.written (front ++ w :: back)).Stores w.1 w.2 :=
    Arena.stores_written hholds hback
  have hle : w.1 + w.2.length ≤ (c.written (front ++ w :: back)).heapPointer := by
    rw [Arena.heapPointer_written]
    exact hholds
  cases p with
  | bytes =>
    cases h
    exact hstored.read hle
  | object offset content =>
    obtain ⟨handle, rfl, hencoded, habove, hobject⟩ := h
    obtain ⟨hmax, hbytes⟩ := encodeHandle_eq_ok.mp hencoded
    have hlen : w.2.length = headerWidth := hbytes ▸ LittleEndian.length_encode ..
    refine ⟨handle, ?_, fun i hi => ?_⟩
    · rw [← hbytes] at hstored
      exact hstored.readHandle (hlen ▸ hle) hmax
    · rw [Arena.getElem?_written, hobject i hi]
      intro w' hw'
      have := hbelow w' hw'
      omega

end Pending

/-- The place holds what was staged for it: the bytes, or the value as it is encoded for the type of
the place, of which a string or slice is an object that the place has the handle of. -/
def Arena.HoldsStaged (a : Arena) (place : Place) (staged : Staged) : Prop :=
  ∃ pending, Pending.ofStaged place staged = .ok pending ∧ pending.width = place.size ∧
    pending.HeldBy a

/-- The outputs are found on `a`, all of them in allocated memory. On `b` each of them holds what
was staged for it, unless it shares a byte with a later output. -/
def Arena.StoresStaged (a : Arena) (t : StructTable) (fp : Nat) (os : List Operand) (slots : Slots)
    (b : Arena) : Prop :=
  (∀ o ∈ os, ∀ place, o.place t a fp = .ok place → place.offset + place.size ≤ a.heapPointer) →
    ∀ (i : Nat) (o : Operand) (staged : Staged), os[i]? = some o → slots[i]? = some (some staged) →
      ∃ place, o.place t a fp = .ok place ∧
        ((∀ (j : Nat) (o' : Operand) (place' : Place), i < j → os[j]? = some o' →
          o'.place t a fp = .ok place' → place.Apart place') → b.HoldsStaged place staged)

/-- A string or slice that is staged as a value has to be stored as an object. -/
def Staged.NeedsObject : Staged → Prop
  | .value (.str _) | .value (.slice _) => True
  | _ => False

/-- The outputs for which something is staged are found on `a`. On `b` each of them holds it, unless
it shares a byte with a later output. If objects have to be stored, this takes that all outputs lie
in allocated memory. -/
def Arena.DeliversStaged (a : Arena) (t : StructTable) (fp : Nat) (os : List Operand)
    (slots : Slots) (b : Arena) : Prop :=
  ∀ (i : Nat) (o : Operand) (staged : Staged), os[i]? = some o → slots[i]? = some (some staged) →
    ∃ place, o.place t a fp = .ok place ∧
      ((∀ staged, some staged ∈ slots → ¬ staged.NeedsObject) ∨
        (∀ o ∈ os, ∀ place, o.place t a fp = .ok place →
          place.offset + place.size ≤ a.heapPointer) →
        (∀ (j : Nat) (o' : Operand) (place' : Place), i < j → os[j]? = some o' →
          o'.place t a fp = .ok place' → place.Apart place') → b.HoldsStaged place staged)

theorem Arena.DeliversStaged.stores {a b : Arena} {t : StructTable} {fp : Nat} {os : List Operand}
    {slots : Slots} (h : a.DeliversStaged t fp os slots b) : a.StoresStaged t fp os slots b := by
  intro hbelow i o staged ho hstaged
  obtain ⟨place, hplace, hholds⟩ := h i o staged ho hstaged
  exact ⟨place, hplace, hholds (.inr hbelow)⟩

/-- Outputs that lead to these places whatever lies in memory. -/
theorem Arena.StoresStaged.holds {a b : Arena} {t : StructTable} {fp i : Nat} {os : List Operand}
    {slots : Slots} {places : List Place} {place : Place} {staged : Staged}
    (h : a.StoresStaged t fp os slots b)
    (hplaces : List.Forall₂ (fun (o : Operand) place => ∀ c, o.place t c fp = .ok place) os places)
    (hbelow : ∀ place ∈ places, place.offset + place.size ≤ a.heapPointer)
    (hplace : places[i]? = some place) (hstaged : slots[i]? = some (some staged))
    (hlater : ∀ (j : Nat) place', i < j → places[j]? = some place' → place.Apart place') :
    b.HoldsStaged place staged := by
  obtain ⟨o, ho, hleads⟩ := exists_getElem?_of_forall₂ hplaces hplace
  obtain ⟨_, hat, hholds⟩ := h (fun o ho place hplace => by
    obtain ⟨_, hmem, hleads⟩ := exists_of_forall₂_right hplaces.flip ho
    cases hplace.symm.trans (hleads a)
    exact hbelow place hmem) i o staged ho hstaged
  cases hat.symm.trans (hleads a)
  refine hholds fun j o' place' hj ho' hplace' => ?_
  obtain ⟨_, hat', hleads'⟩ := exists_getElem?_of_forall₂ hplaces.flip ho'
  cases hplace'.symm.trans (hleads' a)
  exact hlater j place' hj hat'

theorem Pending.offset_of_ofStaged {place : Place} {staged : Staged} {p : Pending}
    (h : ofStaged place staged = .ok p) : p.offset = place.offset := by
  cases staged with
  | bytes content =>
    cases h
    rfl
  | value v =>
    obtain ⟨encoded, -, h⟩ := bind_eq_ok.mp h
    split at h <;> cases h <;> rfl

theorem Pending.exists_bytes_of_ofStaged {place : Place} {staged : Staged} {p : Pending}
    (h : ofStaged place staged = .ok p) (hword : ¬ staged.NeedsObject) :
    ∃ offset content, p = bytes offset content := by
  cases staged with
  | bytes content =>
    cases h
    exact ⟨_, _, rfl⟩
  | value v =>
    obtain ⟨encoded, -, h⟩ := bind_eq_ok.mp h
    cases v with
    | str | slice => exact absurd trivial hword
    | _ =>
      cases h
      exact ⟨_, _, rfl⟩

namespace Site

variable {s : Site} {a : Arena} {o : Operand} {os : List Operand} {slots : Slots} {staged : Staged}
  {p : Pending} {ps : List Pending} {i : Nat}

theorem prepare_eq_ok (h : s.prepare a o staged = .ok p) :
    ∃ place, o.place s.structs a s.fp = .ok place ∧ Pending.ofStaged place staged = .ok p ∧
      p.width = place.size := by
  obtain ⟨place, hplace, h⟩ := bind_eq_ok.mp h
  obtain ⟨pending, hpending, h⟩ := bind_eq_ok.mp h
  split at h
  · cases h
    exact ⟨place, hplace, hpending, ‹_›⟩
  · cases h

/-- Everything that is checked is staged for one of the outputs. -/
theorem exists_of_mem_prepareAll (h : s.prepareAll a os slots = .ok ps) (hp : p ∈ ps) :
    ∃ (j : Nat) (o : Operand) (staged : Staged), os[j]? = some o ∧
      slots[j]? = some (some staged) ∧ s.prepare a o staged = .ok p := by
  induction os generalizing slots ps with
  | nil =>
    cases h
    cases hp
  | cons o os ih =>
    cases slots with
    | nil =>
      cases h
      cases hp
    | cons slot slots =>
      have hrest : ∀ {qs}, s.prepareAll a os slots = .ok qs → p ∈ qs →
          ∃ (j : Nat) (o' : Operand) (staged : Staged), (o :: os)[j]? = some o' ∧
            (slot :: slots)[j]? = some (some staged) ∧ s.prepare a o' staged = .ok p := by
        intro qs hqs hp
        obtain ⟨j, o', staged, ho', hstaged, hprepared⟩ := ih hqs hp
        exact ⟨j + 1, o', staged, ho', hstaged, hprepared⟩
      cases slot with
      | none => exact hrest h hp
      | some staged =>
        obtain ⟨p', hp', h⟩ := bind_eq_ok.mp h
        obtain ⟨qs, hqs, h⟩ := bind_eq_ok.mp h
        cases h
        rcases List.mem_cons.mp hp with rfl | hp
        · exact ⟨0, o, staged, rfl, rfl, hp'⟩
        · exact hrest hqs hp

/-- What is staged for an output is checked, and after it only what is staged for later ones. -/
theorem prepareAll_split (h : s.prepareAll a os slots = .ok ps) (ho : os[i]? = some o)
    (hstaged : slots[i]? = some (some staged)) : ∃ front p back, ps = front ++ p :: back ∧
      s.prepare a o staged = .ok p ∧ ∀ p' ∈ back, ∃ (j : Nat) (o' : Operand) (staged' : Staged),
        i < j ∧ os[j]? = some o' ∧ s.prepare a o' staged' = .ok p' := by
  induction os generalizing slots ps i with
  | nil => cases ho
  | cons head os ih =>
    cases slots with
    | nil => cases hstaged
    | cons slot slots =>
      cases i with
      | zero =>
        cases ho
        cases hstaged
        obtain ⟨p, hp, h⟩ := bind_eq_ok.mp h
        obtain ⟨rest, hrest, h⟩ := bind_eq_ok.mp h
        cases h
        refine ⟨[], p, rest, rfl, hp, fun p' hp' => ?_⟩
        obtain ⟨j, o', staged', ho', -, hprepared⟩ := exists_of_mem_prepareAll hrest hp'
        exact ⟨j + 1, o', staged', Nat.succ_pos j, ho', hprepared⟩
      | succ i =>
        have hrest : ∀ {qs}, s.prepareAll a os slots = .ok qs → ∃ front p back,
            qs = front ++ p :: back ∧ s.prepare a o staged = .ok p ∧
              ∀ p' ∈ back, ∃ (j : Nat) (o' : Operand) (staged' : Staged), i + 1 < j ∧
                (head :: os)[j]? = some o' ∧ s.prepare a o' staged' = .ok p' := by
          intro qs hqs
          obtain ⟨front, p, back, rfl, hp, hback⟩ := ih hqs ho hstaged
          refine ⟨front, p, back, rfl, hp, fun p' hp' => ?_⟩
          obtain ⟨j, o', staged', hj, ho', hprepared⟩ := hback p' hp'
          exact ⟨j + 1, o', staged', Nat.succ_lt_succ hj, ho', hprepared⟩
        cases slot with
        | none => exact hrest h
        | some first =>
          obtain ⟨q, -, h⟩ := bind_eq_ok.mp h
          obtain ⟨qs, hqs, h⟩ := bind_eq_ok.mp h
          cases h
          obtain ⟨front, p, back, rfl, hp⟩ := hrest hqs
          exact ⟨q :: front, p, back, rfl, hp⟩

/-- What is left to be written for an output goes to its place. -/
theorem place_of_settled {c : Arena} {w : Nat × Bytes} (hw : p.Settled a c w)
    (hp : s.prepare a o staged = .ok p) : ∃ place, o.place s.structs a s.fp = .ok place ∧
      w.1 = place.offset ∧ w.2.length = place.size := by
  obtain ⟨place, hplace, hpending, hwidth⟩ := prepare_eq_ok hp
  obtain ⟨hoffset, hlen⟩ := hw.range
  exact ⟨place, hplace, hoffset.trans (Pending.offset_of_ofStaged hpending), hlen.trans hwidth⟩

theorem delivers_commit : Ends (s.commit slots) a
    (fun _ b => a.DeliversStaged s.structs s.fp s.node.outputs slots b) (fun _ _ => True) := by
  simp only [commit, ends_bind, ends_query]
  apply gives_of_ok ?_ fun _ => trivial
  intro ps hps
  refine ends_iff.mpr ⟨fun writes c hc => ?_, fun _ _ _ => trivial⟩
  obtain ⟨-, hsettled⟩ := Pending.ends_settleAll.value hc
  apply Arena.ends_writeAll.mono ?_ fun _ _ _ => trivial
  rintro - _ ⟨hholds, rfl⟩ i o staged ho hstaged
  obtain ⟨front, p, back, rfl, hp, hback⟩ := prepareAll_split hps ho hstaged
  obtain ⟨place, hplace, hpending, hwidth⟩ := prepare_eq_ok hp
  refine ⟨place, hplace, fun hsafe hapart => ⟨p, hpending, hwidth, ?_⟩⟩
  have hsmall : ∀ w ∈ writes, w.1 + w.2.length ≤ a.heapPointer := by
    rcases hsafe with hwords | hbelow
    · -- no object is stored, so the writes are made where they were checked
      obtain ⟨writes', hsettle⟩ := Pending.settleAll_of_bytes (a := a) fun p' hp' => by
        obtain ⟨j, o', staged', -, hslot, hprepared⟩ := exists_of_mem_prepareAll hps hp'
        obtain ⟨_, -, hpending', -⟩ := prepare_eq_ok hprepared
        exact Pending.exists_bytes_of_ofStaged hpending'
          (hwords staged' (List.mem_of_getElem? hslot))
      cases hc.symm.trans hsettle
      exact hholds
    · intro w hw
      obtain ⟨p', hp', hw'⟩ := exists_of_forall₂_right hsettled hw
      obtain ⟨j, o', staged', ho', -, hprepared⟩ := exists_of_mem_prepareAll hps hp'
      obtain ⟨place', hplace', hoffset, hlen⟩ := place_of_settled hw' hprepared
      rw [hoffset, hlen]
      exact hbelow o' (List.mem_of_getElem? ho') place' hplace'
  obtain ⟨front', rest, rfl, -, hrest⟩ := exists_of_forall₂_append hsettled
  obtain ⟨w, back', hw, hback', rfl⟩ := List.forall₂_cons_left_iff.mp hrest
  obtain ⟨_, hplace', hoffset, hlen⟩ := place_of_settled hw hp
  cases hplace.symm.trans hplace'
  refine hw.heldBy (hholds w (by simp)) hsmall fun w' hw' i hle hlt => ?_
  obtain ⟨p', hp', hsettled'⟩ := exists_of_forall₂_right hback' hw'
  obtain ⟨j, o', staged', hj, ho', hprepared⟩ := hback p' hp'
  obtain ⟨place', hplace', hoffset', hlen'⟩ :=
    place_of_settled hsettled' hprepared
  have hnot := hapart j o' place' hj ho' hplace' i
  unfold Place.Covers at hnot
  omega

end Site

namespace Machine

variable {m u : Machine} {callee : Function} {fp : Nat} {o : Operand} {os : List Operand}
  {bytes : Bytes} {results : List Bytes} {writes : List (Nat × Bytes)} {i : Nat}

theorem exists_of_mem_resultWrites (h : m.resultWrites callee fp os results = .ok writes)
    {w : Nat × Bytes} (hw : w ∈ writes) : ∃ (j : Nat) (o : Operand) (place : Place),
      os[j]? = some o ∧ m.place fp o = .ok place ∧ w.1 = place.offset ∧
        w.2.length = place.size := by
  induction os generalizing results writes with
  | nil =>
    cases h
    cases hw
  | cons o os ih =>
    cases results with
    | nil =>
      cases h
      cases hw
    | cons bytes results =>
      obtain ⟨place, hplace, h⟩ := bind_eq_ok.mp h
      split at h
      · cases h
      rename_i hlen
      obtain ⟨rest, hrest, h⟩ := bind_eq_ok.mp h
      cases h
      rcases List.mem_cons.mp hw with rfl | hw
      · exact ⟨0, o, place, rfl, hplace, rfl, not_not.mp hlen⟩
      · obtain ⟨j, o', place', ho', hplace'⟩ := ih hrest hw
        exact ⟨j + 1, o', place', ho', hplace'⟩

/-- A result goes to the place of its output; after it only those for later outputs are written. -/
theorem resultWrites_split (h : m.resultWrites callee fp os results = .ok writes)
    (ho : os[i]? = some o) (hbytes : results[i]? = some bytes) : ∃ front place back,
      writes = front ++ (place.offset, bytes) :: back ∧ m.place fp o = .ok place ∧
        bytes.length = place.size ∧ ∀ w' ∈ back, ∃ (j : Nat) (o' : Operand) (place' : Place),
          i < j ∧ os[j]? = some o' ∧ m.place fp o' = .ok place' ∧ w'.1 = place'.offset ∧
            w'.2.length = place'.size := by
  induction os generalizing results writes i with
  | nil => cases ho
  | cons head os ih =>
    cases results with
    | nil => cases hbytes
    | cons first results =>
      obtain ⟨place, hplace, h⟩ := bind_eq_ok.mp h
      split at h
      · cases h
      rename_i hlen
      obtain ⟨rest, hrest, h⟩ := bind_eq_ok.mp h
      cases h
      cases i with
      | zero =>
        cases ho
        cases hbytes
        refine ⟨[], place, rest, rfl, hplace, not_not.mp hlen, fun w' hw' => ?_⟩
        obtain ⟨j, o', place', ho', hplace'⟩ := exists_of_mem_resultWrites hrest hw'
        exact ⟨j + 1, o', place', Nat.succ_pos j, ho', hplace'⟩
      | succ i =>
        obtain ⟨front, place', back, rfl, hplace', hlen', hback⟩ := ih hrest ho hbytes
        refine ⟨(place.offset, first) :: front, place', back, rfl, hplace', hlen', fun w' hw' => ?_⟩
        obtain ⟨j, o', place'', hj, ho', hplace''⟩ := hback w' hw'
        exact ⟨j + 1, o', place'', Nat.succ_lt_succ hj, ho', hplace''⟩

theorem delivers_storeResults {n : Node} {calleeFp : Nat}
    (hresults : m.readSlots calleeFp callee.returns = .ok results) :
    Ends (storeResults calleeFp callee fp n) m
      (fun _ m' => m.arena.DeliversStaged m.program.structs fp n.outputs
        (results.map fun bytes => some (.bytes bytes)) m'.arena) (fun _ _ => True) := by
  simp only [storeResults, ends_bind, ends_query, gives_bind, hresults, gives_ok, ends_onArena]
  apply gives_of_ok ?_ fun _ => trivial
  intro writes hwrites
  apply Arena.ends_writeAll.mono ?_ fun _ _ _ => trivial
  rintro - _ ⟨hholds, rfl⟩ i o staged ho hstaged
  obtain ⟨bytes, hbytes, rfl⟩ : ∃ bytes, results[i]? = some bytes ∧ .bytes bytes = staged := by
    simpa using hstaged
  obtain ⟨front, place, back, rfl, hplace, hlen, hback⟩ := resultWrites_split hwrites ho hbytes
  refine ⟨place, hplace, fun _ hapart => ⟨.bytes place.offset bytes, rfl, hlen, ?_⟩⟩
  have hhold : m.arena.Holds (place.offset, bytes) := hholds _ (by simp)
  apply (Arena.stores_written hhold fun w' hw' i hle hlt => ?_).read
  · exact (Arena.heapPointer_written (a := m.arena)).symm ▸ hhold
  obtain ⟨j, o', place', hj, ho', hplace', hoffset', hlen'⟩ := hback w' hw'
  have hnot := hapart j o' place' hj ho' hplace' i
  unfold Place.Covers at hnot
  dsimp only at hle hlt
  omega

end Machine

end FlatMachine
