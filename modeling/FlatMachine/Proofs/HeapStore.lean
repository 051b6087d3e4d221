import FlatMachine.Proofs.HeapObjects

/-!
# The heap as a store of lists

To a program that only uses handles it was given, the heap is a map from handles to lists of
elements. Making an object binds a new handle; copying and overwriting change the list of one
handle; what fails changes none.
-/

namespace FlatMachine

open FlatMachine.Action

/-- The lists that handles stand for. -/
def Store := Nat → Option Listing

namespace Store

variable (s : Store) (handle width : Nat)

def empty : Store := fun _ => none

/-- The elements of a handle; nil has none. -/
def elements : List Bytes := ((s handle).map (·.elements)).getD []

/-- The handle is nil or was bound to elements of this width. -/
def Knows : Prop := 0 < width ∧ (handle = nilHandle ∨ (s handle).map (·.width) = some width)

instance : Decidable (s.Knows handle width) := inferInstanceAs (Decidable (_ ∧ _))

def bind (o : Listing) : Store := fun other => if other = handle then some o else s other

/-- Other elements for a handle that is bound. -/
def rewrite (f : List Bytes → List Bytes) : Store := fun other =>
  if other = handle then (s other).map fun o => { o with elements := f o.elements } else s other

variable {s : Store} {handle width : Nat} {o : Listing} {f : List Bytes → List Bytes}

theorem eq_of_knows (hk : s.Knows handle width) (hnil : handle ≠ nilHandle)
    (ho : s handle = some o) : o = ⟨width, s.elements handle⟩ := by
  have hwidth : o.width = width := by simpa [ho, hnil] using hk.2
  simp [elements, ho, ← hwidth]

theorem nil_of_knows (hk : s.Knows handle width) (hnone : s handle = none) :
    handle = nilHandle ∧ s.elements handle = [] :=
  ⟨by simpa [hnone] using hk.2, by simp [elements, hnone]⟩

theorem rewrite_eq_some {other : Nat} (h : s.rewrite handle f other = some o) :
    (other = handle ∧ ∃ old, s handle = some old ∧ o = { old with elements := f old.elements }) ∨
      (other ≠ handle ∧ s other = some o) := by
  unfold rewrite at h
  split at h
  · subst other
    obtain ⟨old, hold, rfl⟩ := Option.map_eq_some_iff.mp h
    exact .inl ⟨rfl, old, hold, rfl⟩
  · exact .inr ⟨‹_›, h⟩

end Store

namespace Arena

/-- How an object is made. -/
inductive Recipe where
  | zeros (count width : Nat)
  | text (content : String)
  | items (elem : Ty) (values : List Value)
  | append (handle width : Nat) (element : Bytes)
  | concat (first second width : Nat)

namespace Recipe

def run : Recipe → Action Arena Nat
  | zeros count width => newObject count width
  | text content => writeObject (.str content) .str
  | items elem values => writeObject (.slice values) (.slice elem)
  | append handle width element => appendElement handle width element
  | concat first second width => concatObjects first second width

/-- Handles are used with the width of their elements. -/
def Proper (s : Store) : Recipe → Prop
  | zeros _ width => 0 < width
  | text _ | items _ _ => True
  | append handle width _ => s.Knows handle width
  | concat first second width => s.Knows first width ∧ s.Knows second width

instance (s : Store) : (recipe : Recipe) → Decidable (recipe.Proper s)
  | zeros _ width => inferInstanceAs (Decidable (0 < width))
  | text _ | items _ _ => inferInstanceAs (Decidable True)
  | append handle width _ => inferInstanceAs (Decidable (s.Knows handle width))
  | concat first second width =>
    inferInstanceAs (Decidable (s.Knows first width ∧ s.Knows second width))

/-- The object made, if the values have the type and the element the width that they should. -/
def listing? (s : Store) : Recipe → Option Listing
  | zeros count width => some ⟨width, List.replicate count (List.replicate width 0)⟩
  | text content => some (.ofText content)
  | items elem values => (Listing.ofItems elem values).toOption
  | append handle width element =>
    if element.length = width then some ⟨width, s.elements handle ++ [element]⟩ else none
  | concat first second width => some ⟨width, s.elements first ++ s.elements second⟩

end Recipe

/-- What can be done with the heap. -/
inductive HeapCall where
  | make (recipe : Recipe)
  | copy (dst src width : Nat)
  | overwrite (handle : Nat) (index : Int) (width : Nat) (element : Bytes)

namespace HeapCall

def run : HeapCall → Action Arena Nat
  | make recipe => recipe.run
  | copy dst src width => copyElements dst src width
  | overwrite handle index width element => overwriteElement handle index width element

def Proper (s : Store) : HeapCall → Prop
  | make recipe => recipe.Proper s
  | copy dst src width => s.Knows dst width ∧ s.Knows src width
  | overwrite handle _ width element => s.Knows handle width ∧ element.length = width

instance (s : Store) : (call : HeapCall) → Decidable (call.Proper s)
  | make recipe => inferInstanceAs (Decidable (recipe.Proper s))
  | copy dst src width => inferInstanceAs (Decidable (s.Knows dst width ∧ s.Knows src width))
  | overwrite handle _ width element =>
    inferInstanceAs (Decidable (s.Knows handle width ∧ element.length = width))

/-- What a call that succeeds makes of the lists. -/
def apply (s : Store) (reply : Nat) : HeapCall → Store
  | make recipe => (recipe.listing? s).elim s (s.bind reply)
  | copy dst src _ => s.rewrite dst (copied (s.elements src))
  | overwrite handle index _ element => s.rewrite handle (·.set index.toNat element)

/-- A new object has a new handle; copying yields the number of elements copied. -/
def Answers (s : Store) (reply : Nat) : HeapCall → Prop
  | make recipe => (recipe.listing? s).isSome ∧ nilHandle < reply ∧ s reply = none
  | copy dst src _ => reply = min (s.elements dst).length (s.elements src).length
  | overwrite handle index _ _ => 0 ≤ index ∧ index < (s.elements handle).length

/-- Why a call fails. -/
def Refused (a : Arena) (s : Store) : HeapCall → Prop
  | make recipe => ∀ o, recipe.listing? s = some o → ¬ a.HasRoom o.elements.length o.width
  | copy .. => False
  | overwrite handle index _ _ => ¬ (0 ≤ index ∧ index < (s.elements handle).length)

end HeapCall

/-- An arena with the lists that the handles it gave out stand for. -/
structure Heap where
  arena : Arena
  store : Store := .empty

namespace Heap

def after (heap : Heap) (call : HeapCall) : Heap :=
  match call.run heap.arena with
  | .ok reply a => ⟨a, call.apply heap.store reply⟩
  | .error _ a => { heap with arena := a }

def afterAll (heap : Heap) (calls : List HeapCall) : Heap := calls.foldl after heap

/-- Every call is proper when its turn comes. -/
def ProperAll (heap : Heap) : List HeapCall → Prop
  | [] => True
  | call :: calls => call.Proper heap.store ∧ (heap.after call).ProperAll calls

instance : (heap : Heap) → (calls : List HeapCall) → Decidable (heap.ProperAll calls)
  | _, [] => inferInstanceAs (Decidable True)
  | heap, call :: calls =>
    have := instDecidableProperAll (heap.after call) calls
    inferInstanceAs (Decidable (_ ∧ _))

end Heap

/-- The objects of a store lie in the arena, one behind the other. -/
structure Represents (a : Arena) (s : Store) : Prop where
  nilGuard_le : nilGuard ≤ a.heapPointer
  hasObject : ∀ {handle o}, s handle = some o → nilGuard ≤ handle ∧ a.HasObject handle o
  apart : ∀ {handle o other o'}, s handle = some o → s other = some o' → handle < other →
    handle + o.bytes.length ≤ other

variable {a b : Arena} {s : Store} {handle width : Nat} {o : Listing}

theorem represents_withLayout {data : Bytes} {stackSize heapSize limit : Nat}
    (h : withLayout data stackSize heapSize limit = .ok a) : Represents a .empty where
  nilGuard_le := by
    obtain ⟨hguard, hstack, hheap, -⟩ := ordered_withLayout h
    exact hguard.trans (hstack.trans hheap)
  hasObject := nofun
  apart := nofun

namespace Represents

theorem ne_nil (h : Represents a s) (ho : s handle = some o) : handle ≠ nilHandle := by
  rintro rfl
  exact absurd (h.hasObject ho).1 (by decide)

theorem stop_le (h : Represents a s) (ho : s handle = some o) :
    handle + o.bytes.length ≤ a.heapPointer :=
  ((h.hasObject ho).2.stores (h.ne_nil ho)).stop_le o.bytes_ne_nil

theorem hasObject_of_knows (h : Represents a s) (hk : s.Knows handle width) :
    a.HasObject handle ⟨width, s.elements handle⟩ := by
  cases ho : s handle with
  | none =>
    obtain ⟨hnil, hempty⟩ := Store.nil_of_knows hk ho
    rw [hempty]
    exact ⟨⟨hk.1, nofun, Nat.zero_le _⟩, fun hne => absurd hnil hne, fun _ => rfl⟩
  | some o =>
    rw [← Store.eq_of_knows hk (h.ne_nil ho) ho]
    exact (h.hasObject ho).2

theorem extend (h : Represents a s) (hext : Extends a b) : Represents b s where
  nilGuard_le := h.nilGuard_le.trans hext.heapPointer_le
  hasObject ho := ⟨(h.hasObject ho).1, (h.hasObject ho).2.of_extends hext⟩
  apart := h.apart

/-- A new object is bound to a new handle. -/
theorem bind (h : Represents a s) (hmakes : Makes a o handle b) :
    (nilHandle < handle ∧ s handle = none) ∧ Represents b (s.bind handle o) := by
  have hguard : nilGuard ≤ handle := hmakes.handle_eq ▸ h.nilGuard_le
  have hpos : nilHandle < handle := Nat.lt_of_lt_of_le (by decide) hguard
  -- What the store knows ends where the new object begins.
  have hbefore : ∀ {other o'}, s other = some o' → other + o'.bytes.length ≤ handle :=
    fun ho => hmakes.handle_eq ▸ h.stop_le ho
  have hlt : ∀ {other o'}, s other = some o' → other < handle := by
    intro other o' ho
    have hlen := List.length_pos_of_ne_nil o'.bytes_ne_nil
    have hstop := hbefore ho
    omega
  have hnone : s handle = none := by
    cases ho : s handle with
    | none => rfl
    | some o' => exact absurd (hlt ho) (lt_irrefl _)
  refine ⟨⟨hpos, hnone⟩, h.nilGuard_le.trans hmakes.toExtends.heapPointer_le, ?_, ?_⟩
  · intro other o' ho
    unfold Store.bind at ho
    split at ho
    · cases ho
      subst other
      exact ⟨hguard, hmakes.sound, fun _ => hmakes.stores, fun hnil => absurd hnil hpos.ne'⟩
    · exact (h.extend hmakes.toExtends).hasObject ho
  · intro first o₁ second o₂ ho₁ ho₂ hfirst
    unfold Store.bind at ho₁ ho₂
    split at ho₁
    · subst first
      rw [if_neg hfirst.ne'] at ho₂
      exact absurd hfirst (hlt ho₂).not_gt
    · split at ho₂
      · subst second
        exact hbefore ho₁
      · exact h.apart ho₁ ho₂ hfirst

theorem rewrite {f : List Bytes → List Bytes} (h : Represents a s) (hk : s.Knows handle width)
    (hrewrites : Rewrites a handle ⟨width, s.elements handle⟩ ⟨width, f (s.elements handle)⟩ b)
    (hlen : (f (s.elements handle)).length = (s.elements handle).length) :
    Represents b (s.rewrite handle f) := by
  obtain ⟨hchanged, hobject⟩ := hrewrites
  have hbytes : (Listing.mk width (f (s.elements handle))).bytes.length =
      (Listing.mk width (s.elements handle)).bytes.length := by
    rw [Listing.length_bytes hobject.sound.length_eq,
      Listing.length_bytes (h.hasObject_of_knows hk).sound.length_eq]
    exact congrArg (headerWidth + · * width) hlen
  -- The object that lay at a handle before was as long.
  have hbefore : ∀ {other o}, s.rewrite handle f other = some o →
      ∃ o', s other = some o' ∧ o.bytes.length = o'.bytes.length := by
    intro other o ho
    rcases Store.rewrite_eq_some ho with ⟨rfl, old, hold, rfl⟩ | ⟨-, ho⟩
    · cases Store.eq_of_knows hk (h.ne_nil hold) hold
      exact ⟨_, hold, hbytes⟩
    · exact ⟨o, ho, rfl⟩
  refine ⟨hchanged.heapPointer_eq ▸ h.nilGuard_le, ?_, ?_⟩
  · intro other o ho
    rcases Store.rewrite_eq_some ho with ⟨rfl, old, hold, rfl⟩ | ⟨hne, ho⟩
    · cases Store.eq_of_knows hk (h.ne_nil hold) hold
      exact ⟨(h.hasObject hold).1, hobject⟩
    · obtain ⟨hguard, hother⟩ := h.hasObject ho
      refine ⟨hguard, hother.changedIn hchanged ?_⟩
      cases hold : s handle with
      | none =>
        obtain ⟨hnil, hempty⟩ := Store.nil_of_knows hk hold
        rw [hempty, hnil]
        exact .inr (le_trans (show nilHandle + headerWidth ≤ nilGuard by decide) hguard)
      | some old =>
        rw [← Store.eq_of_knows hk (h.ne_nil hold) hold]
        rcases Nat.lt_or_gt_of_ne hne with hlt | hlt
        · exact .inl (h.apart ho hold hlt)
        · exact .inr (h.apart hold ho hlt)
  · intro first o₁ second o₂ ho₁ ho₂ hlt
    obtain ⟨o₁', ho₁', hlen₁⟩ := hbefore ho₁
    obtain ⟨o₂', ho₂', -⟩ := hbefore ho₂
    exact hlen₁ ▸ h.apart ho₁' ho₂' hlt

/-- Making an object yields a handle of what the recipe says. -/
theorem makes_run (h : Represents a s) (recipe : Recipe) (hproper : recipe.Proper s) :
    Ends recipe.run a
      (fun handle b => ∃ o, recipe.listing? s = some o ∧ Makes a o handle b)
      (fun _ b => Extends a b ∧
        ∀ o, recipe.listing? s = some o → ¬ a.HasRoom o.elements.length o.width) := by
  cases recipe with
  | zeros count width =>
    apply (makes_newObject hproper).mono
    · exact fun _ _ hb => ⟨_, rfl, hb⟩
    · rintro _ b ⟨hext, hroom⟩
      refine ⟨hext, fun o ho => ?_⟩
      cases ho
      rwa [List.length_replicate]
  | text content =>
    apply (makes_text content).mono
    · exact fun _ _ hb => ⟨_, rfl, hb⟩
    · rintro _ b ⟨hext, hroom⟩
      refine ⟨hext, fun o ho => ?_⟩
      cases ho
      rwa [Listing.ofText, List.length_map]
  | items elem values =>
    have hlisting : ∀ o, (Recipe.items elem values).listing? s = some o ↔
        Listing.ofItems elem values = .ok o := by
      intro o
      rw [Recipe.listing?]
      cases Listing.ofItems elem values <;> simp [Except.toOption]
    simp only [hlisting]
    apply (makes_items elem values).mono fun _ _ hb => hb
    rintro _ b ⟨hext, hroom⟩
    refine ⟨hext, fun o ho => ?_⟩
    rw [(Listing.ofItems_eq_ok ho).1]
    exact hroom o ho
  | append handle width element =>
    apply (makes_appendElement (h.hasObject_of_knows hproper)).mono
    · rintro result b ⟨hlen, hb⟩
      exact ⟨_, if_pos hlen, hb⟩
    · rintro _ b ⟨hext, hroom⟩
      refine ⟨hext, fun o ho => ?_⟩
      simp only [Recipe.listing?, Option.ite_none_right_eq_some, Option.some.injEq] at ho
      obtain ⟨hlen, rfl⟩ := ho
      rw [List.length_append]
      exact hroom hlen
  | concat first second width =>
    apply (makes_concatObjects (h.hasObject_of_knows hproper.1)
      (h.hasObject_of_knows hproper.2)).mono
    · exact fun _ _ hb => ⟨_, rfl, hb⟩
    · rintro _ b ⟨hext, hroom⟩
      refine ⟨hext, fun o ho => ?_⟩
      cases ho
      rwa [List.length_append]

/-- What one call does. -/
theorem ends_run (h : Represents a s) (call : HeapCall) (hproper : call.Proper s) :
    Ends call.run a (fun reply b => call.Answers s reply ∧ Represents b (call.apply s reply))
      (fun _ b => call.Refused a s ∧ Represents b s) := by
  cases call with
  | make recipe =>
    apply (h.makes_run recipe hproper).mono
    · rintro handle b ⟨o, ho, hmakes⟩
      obtain ⟨hfresh, hbound⟩ := h.bind hmakes
      simp only [HeapCall.Answers, HeapCall.apply, ho]
      exact ⟨⟨rfl, hfresh⟩, hbound⟩
    · exact fun _ b hb => ⟨hb.2, h.extend hb.1⟩
  | copy dst src width =>
    obtain ⟨hdst, hsrc⟩ := hproper
    apply (rewrites_copyElements (h.hasObject_of_knows hdst) (h.hasObject_of_knows hsrc)).mono
    · rintro n b ⟨rfl, hb⟩
      refine ⟨rfl, h.rewrite hdst hb ?_⟩
      rw [copied, List.length_append, List.length_take, List.length_drop]
      omega
    · exact fun _ _ he => he.elim
  | overwrite handle index width element =>
    obtain ⟨hknows, hlen⟩ := hproper
    apply (rewrites_overwriteElement (h.hasObject_of_knows hknows) hlen).mono
    · rintro offset b ⟨hin, hb⟩
      exact ⟨hin, h.rewrite (f := (·.set index.toNat element)) hknows hb List.length_set⟩
    · rintro _ b ⟨rfl, hout⟩
      exact ⟨hout, h⟩

end Represents

theorem represents_afterAll {heap : Heap} (calls : List HeapCall)
    (h : Represents heap.arena heap.store) (hproper : heap.ProperAll calls) :
    Represents (heap.afterAll calls).arena (heap.afterAll calls).store := by
  induction calls generalizing heap with
  | nil => exact h
  | cons call calls ih =>
    obtain ⟨hcall, hrest⟩ := hproper
    refine ih ?_ hrest
    have hends := h.ends_run call hcall
    unfold Heap.after
    cases hrun : call.run heap.arena with
    | ok reply b => exact (hends.value hrun).2
    | error e b => exact (hends.failure hrun).2

/-- Reading any handle that was given out yields its list. -/
def ShowsAll (a : Arena) (s : Store) : Prop := ∀ handle o, s handle = some o →
  a.Shows handle o.width o.elements ∧ ∀ e ∈ o.elements, e.length = o.width

theorem Represents.showsAll (h : Represents a s) : a.ShowsAll s := fun _ _ ho =>
  ⟨(h.hasObject ho).2.shows, (h.hasObject ho).2.sound.length_eq⟩

/-- After any proper calls every handle shows its list, and the next call either does to the lists
what it should or is refused and leaves them. -/
theorem heap_refines_store {data : Bytes} {stackSize heapSize limit : Nat}
    (h : withLayout data stackSize heapSize limit = .ok a) (calls : List HeapCall)
    (hproper : Heap.ProperAll ⟨a, .empty⟩ calls) :
    let heap := Heap.afterAll ⟨a, .empty⟩ calls
    heap.arena.ShowsAll heap.store ∧ ∀ call : HeapCall, call.Proper heap.store →
      Ends call.run heap.arena
        (fun reply b => call.Answers heap.store reply ∧ b.ShowsAll (call.apply heap.store reply))
        (fun _ b => call.Refused heap.arena heap.store ∧ b.ShowsAll heap.store) := by
  have hrep := represents_afterAll calls (represents_withLayout h) hproper
  refine ⟨hrep.showsAll, fun call hcall => ?_⟩
  apply (hrep.ends_run call hcall).mono
  · exact fun _ _ hb => ⟨hb.1, hb.2.showsAll⟩
  · exact fun _ _ hb => ⟨hb.1, hb.2.showsAll⟩

/-- A text is appended to, concatenated and copied, which leaves it as it was; then one element of
the concatenation is overwritten. A bad index and an object without room are refused. -/
def sharedCalls : List HeapCall :=
  [.make (.text "ab"), .make (.append 16 1 [99]), .make (.concat 22 16 1), .make (.concat 16 16 1),
   .make (.zeros 3 1), .copy 46 29 1, .overwrite 46 (-1) 1 [120], .overwrite 29 4 1 [120],
   .make (.zeros 9 8)]

theorem heap_refines_store_sharedCalls : ∃ a, withLayout [] 8 4 80 = .ok a ∧
    Heap.ProperAll ⟨a, .empty⟩ sharedCalls ∧
    ([16, 22, 29, 38, 46].map fun handle =>
      ((Heap.afterAll ⟨a, .empty⟩ sharedCalls).store.elements handle).flatten) =
      [[97, 98], [97, 98, 99], [97, 98, 99, 97, 120], [97, 98, 97, 98], [97, 98, 99]] ∧
    (Heap.afterAll ⟨a, .empty⟩ sharedCalls).arena.ShowsAll
      (Heap.afterAll ⟨a, .empty⟩ sharedCalls).store := by
  obtain ⟨a, ha, hproper, hstore⟩ : ∃ a, withLayout [] 8 4 80 = .ok a ∧
      Heap.ProperAll ⟨a, .empty⟩ sharedCalls ∧
      ([16, 22, 29, 38, 46].map fun handle =>
        ((Heap.afterAll ⟨a, .empty⟩ sharedCalls).store.elements handle).flatten) =
        [[97, 98], [97, 98, 99], [97, 98, 99, 97, 120], [97, 98, 97, 98], [97, 98, 99]] :=
    ⟨_, rfl, by decide, by decide⟩
  exact ⟨a, ha, hproper, hstore, (heap_refines_store ha sharedCalls hproper).1⟩

end Arena

end FlatMachine
