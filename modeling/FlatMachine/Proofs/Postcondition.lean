import FlatMachine.Action
import Mathlib.Data.List.Forall2
import Mathlib.Order.Nat
import Mathlib.Tactic.Common

/-!
# Postconditions

A result satisfies one condition if it is a value and another if it is an error; an action does so
together with the state that it leaves. The equations push a postcondition through the constructs
that actions are written with, so that a proof follows the text of the action and never unfolds the
monad.
-/

namespace FlatMachine

variable {σ τ α β : Type}

/-- The value satisfies `ok`, or the error satisfies `bad`. -/
def Gives (r : Except Error α) (ok : α → Prop) (bad : Error → Prop) : Prop :=
  match r with
  | .ok a => ok a
  | .error e => bad e

section Gives

variable {r : Except Error α} {ok ok' : α → Prop} {bad bad' : Error → Prop} {a : α} {e : Error}

@[simp] theorem gives_ok : Gives (.ok a) ok bad ↔ ok a := Iff.rfl

@[simp] theorem gives_error : Gives (.error e) ok bad ↔ bad e := Iff.rfl

@[simp] theorem gives_pure : Gives (pure a) ok bad ↔ ok a := Iff.rfl

@[simp] theorem gives_throw : Gives (throw e) ok bad ↔ bad e := Iff.rfl

@[simp] theorem gives_bind {f : α → Except Error β} {ok : β → Prop} :
    Gives (r >>= f) ok bad ↔ Gives r (fun a => Gives (f a) ok bad) bad := by
  cases r <;> rfl

@[simp] theorem gives_ite {c : Prop} [Decidable c] {x y : Except Error α} :
    Gives (if c then x else y) ok bad ↔ (c → Gives x ok bad) ∧ (¬c → Gives y ok bad) := by
  split <;> simp [*]

theorem bind_eq_ok {f : α → Except Error β} {b : β} :
    r >>= f = .ok b ↔ ∃ a, r = .ok a ∧ f a = .ok b := by
  cases r with
  | ok a =>
    refine ⟨fun h => ⟨a, rfl, h⟩, ?_⟩
    rintro ⟨_, ⟨⟩, h⟩
    exact h
  | error e =>
    refine ⟨fun h => (nomatch h), ?_⟩
    rintro ⟨_, ⟨⟩, _⟩

theorem pure_eq_ok {b : α} : (pure a : Except Error α) = .ok b ↔ a = b := by
  simp [pure, Except.pure]

theorem mapError_eq_ok {f : Error → Error} : r.mapError f = .ok a ↔ r = .ok a := by
  cases r <;> simp [Except.mapError]

theorem gives_iff : Gives r ok bad ↔ (∀ a, r = .ok a → ok a) ∧ ∀ e, r = .error e → bad e := by
  cases r <;> simp

theorem Gives.value (h : Gives r ok bad) (hr : r = .ok a) : ok a := (gives_iff.mp h).1 a hr

theorem Gives.failure (h : Gives r ok bad) (hr : r = .error e) : bad e := (gives_iff.mp h).2 e hr

theorem Gives.mono (h : Gives r ok bad) (hok : ∀ a, ok a → ok' a) (hbad : ∀ e, bad e → bad' e) :
    Gives r ok' bad' := by
  cases r with
  | ok a => exact hok a h
  | error e => exact hbad e h

theorem Gives.imp (h : Gives r ok bad) (hok : ∀ a, ok a → ok' a) : Gives r ok' bad :=
  h.mono hok fun _ he => he

theorem gives_congr (hok : ∀ a, r = .ok a → (ok a ↔ ok' a)) (hbad : ∀ e, bad e ↔ bad' e) :
    Gives r ok bad ↔ Gives r ok' bad' := by
  cases r with
  | ok a => exact hok a rfl
  | error e => exact hbad e

theorem gives_of_ok (h : ∀ a, r = .ok a → ok a) (h' : ∀ e, bad e) : Gives r ok bad :=
  gives_iff.mpr ⟨h, fun e _ => h' e⟩

theorem exists_of_forall₂_right {R : α → β → Prop} {as : List α} {bs : List β} {b : β}
    (h : List.Forall₂ R as bs) (hb : b ∈ bs) : ∃ a ∈ as, R a b := by
  induction h with
  | nil => cases hb
  | cons hab _ ih =>
    rcases List.mem_cons.mp hb with rfl | hb
    · exact ⟨_, List.mem_cons_self, hab⟩
    · obtain ⟨a, ha, hab⟩ := ih hb
      exact ⟨a, List.mem_cons_of_mem _ ha, hab⟩

theorem exists_getElem?_of_forall₂ {R : α → β → Prop} {as : List α} {bs : List β} {i : Nat} {b : β}
    (h : List.Forall₂ R as bs) (hb : bs[i]? = some b) : ∃ a, as[i]? = some a ∧ R a b := by
  induction h generalizing i with
  | nil => cases hb
  | cons hab _ ih =>
    cases i with
    | zero =>
      cases hb
      exact ⟨_, rfl, hab⟩
    | succ i => exact ih hb

theorem exists_of_forall₂_singleton {R : α → β → Prop} {a : α} {bs : List β}
    (h : List.Forall₂ R [a] bs) : ∃ b, bs = [b] ∧ R a b := by
  obtain ⟨b, rest, hab, hrest, rfl⟩ := List.forall₂_cons_left_iff.mp h
  cases hrest
  exact ⟨b, rfl, hab⟩

theorem exists_of_forall₂_append {R : α → β → Prop} {as as' : List α} {bs : List β}
    (h : List.Forall₂ R (as ++ as') bs) :
    ∃ front back, bs = front ++ back ∧ List.Forall₂ R as front ∧ List.Forall₂ R as' back := by
  have htake := List.forall₂_take as.length h
  have hdrop := List.forall₂_drop as.length h
  rw [List.take_left] at htake
  rw [List.drop_left] at hdrop
  exact ⟨_, _, (List.take_append_drop _ _).symm, htake, hdrop⟩

theorem forall₂_of_forall₂ {γ : Type} {R : α → β → Prop} {S : β → γ → Prop} {T : α → γ → Prop}
    {as : List α} {bs : List β} {cs : List γ} (h : List.Forall₂ R as bs) (h' : List.Forall₂ S bs cs)
    (himp : ∀ a ∈ as, ∀ b c, R a b → S b c → T a c) : List.Forall₂ T as cs := by
  induction h generalizing cs with
  | nil =>
    cases h'
    exact .nil
  | cons hab _ ih =>
    cases h' with
    | cons hbc hrest =>
      exact .cons (himp _ List.mem_cons_self _ _ hab hbc)
        (ih hrest fun a ha => himp a (List.mem_cons_of_mem _ ha))

theorem forall₂_imp_of_mem {R T : α → β → Prop} {as : List α} {bs : List β}
    (h : List.Forall₂ R as bs) (himp : ∀ a ∈ as, ∀ b, R a b → T a b) : List.Forall₂ T as bs := by
  have hsame : List.Forall₂ Eq bs bs := List.forall₂_refl bs
  refine forall₂_of_forall₂ h hsame ?_
  rintro a ha b _ hab rfl
  exact himp a ha b hab

/-- What holds of every two, one before the other, carries over to what they are related to. -/
theorem pairwise_of_forall₂ {R : α → β → Prop} {S : α → α → Prop} {T : β → β → Prop} {as : List α}
    {bs : List β} (h : List.Forall₂ R as bs) (hpair : as.Pairwise S)
    (himp : ∀ a ∈ as, ∀ a' ∈ as, ∀ b b', R a b → R a' b' → S a a' → T b b') : bs.Pairwise T := by
  induction h with
  | nil => exact .nil
  | @cons a b as bs hab hrest ih =>
    obtain ⟨hhead, hpair⟩ := List.pairwise_cons.mp hpair
    refine .cons (fun b' hb' => ?_) (ih hpair fun x hx y hy => himp x (.tail _ hx) y (.tail _ hy))
    obtain ⟨a', ha', hab'⟩ := exists_of_forall₂_right hrest hb'
    exact himp a List.mem_cons_self a' (.tail _ ha') b b' hab hab' (hhead a' ha')

theorem gives_mapM {f : α → Except Error β} {R : α → β → Prop} {as : List α}
    (h : ∀ a ∈ as, Gives (f a) (R a) bad) : Gives (as.mapM f) (List.Forall₂ R as) bad := by
  induction as with
  | nil => exact .nil
  | cons a as ih =>
    rw [List.mapM_cons, gives_bind]
    apply (h a (by simp)).imp
    intro b hb
    rw [gives_bind]
    exact (ih fun x hx => h x (by simp [hx])).imp fun bs hbs => .cons hb hbs

end Gives

namespace Action

/-- The value and the state left satisfy `ok`, or the error and the state left satisfy `bad`. -/
def Ends (act : Action σ α) (s : σ) (ok : α → σ → Prop) (bad : Error → σ → Prop) : Prop :=
  match act s with
  | .ok a s' => ok a s'
  | .error e s' => bad e s'

variable {act : Action σ α} {s s' : σ} {ok ok' : α → σ → Prop} {bad bad' : Error → σ → Prop}

@[simp] theorem ends_pure {a : α} : Ends (pure a) s ok bad ↔ ok a s := Iff.rfl

@[simp] theorem ends_throw {e : Error} : Ends (throw e) s ok bad ↔ bad e s := Iff.rfl

@[simp] theorem ends_bind {f : α → Action σ β} {ok : β → σ → Prop} :
    Ends (act >>= f) s ok bad ↔ Ends act s (fun a s' => Ends (f a) s' ok bad) bad := by
  simp only [Ends, bind, EStateM.bind]
  cases act s <;> rfl

@[simp] theorem ends_get {ok : σ → σ → Prop} : Ends get s ok bad ↔ ok s s := Iff.rfl

@[simp] theorem ends_set {ok : Unit → σ → Prop} :
    Ends (set s' : Action σ Unit) s ok bad ↔ ok () s' := Iff.rfl

@[simp] theorem ends_modify {f : σ → σ} {ok : Unit → σ → Prop} :
    Ends (modify f) s ok bad ↔ ok () (f s) := Iff.rfl

@[simp] theorem ends_ofExcept {r : Except Error α} :
    Ends (ofExcept r) s ok bad ↔ Gives r (ok · s) (bad · s) := by
  cases r <;> rfl

@[simp] theorem ends_query {f : σ → Except Error α} :
    Ends (query f) s ok bad ↔ Gives (f s) (ok · s) (bad · s) := by
  simp only [Ends, query]
  cases f s <;> rfl

@[simp] theorem ends_update {f : σ → Except Error σ} {ok : Unit → σ → Prop} :
    Ends (update f) s ok bad ↔ Gives (f s) (ok ()) (bad · s) := by
  simp only [Ends, update]
  cases f s <;> rfl

@[simp] theorem ends_advance {f : σ → Except Error (α × σ)} :
    Ends (advance f) s ok bad ↔ Gives (f s) (fun p => ok p.1 p.2) (bad · s) := by
  simp only [Ends, advance]
  rcases f s with e | ⟨a, s'⟩ <;> rfl

@[simp] theorem ends_within [Inhabited σ] {get : τ → σ} {set : σ → τ → τ} {t : τ}
    {ok : α → τ → Prop} {bad : Error → τ → Prop} :
    Ends (within get set act) t ok bad ↔
      Ends act (get t) (fun a s => ok a (set s (set default t)))
        (fun e s => bad e (set s (set default t))) := by
  simp only [Ends, within]
  cases act (get t) <;> rfl

@[simp] theorem ends_mapError {f : Error → Error} :
    Ends (mapError f act) s ok bad ↔ Ends act s ok (fun e s' => bad (f e) s') := by
  simp only [Ends, mapError]
  cases act s <;> rfl

@[simp] theorem ends_ite {c : Prop} [Decidable c] {x y : Action σ α} :
    Ends (if c then x else y) s ok bad ↔ (c → Ends x s ok bad) ∧ (¬c → Ends y s ok bad) := by
  split <;> simp [*]

theorem ends_iff : Ends act s ok bad ↔
    (∀ a s', act s = .ok a s' → ok a s') ∧ ∀ e s', act s = .error e s' → bad e s' := by
  unfold Ends
  cases act s <;> simp

theorem Ends.value {a : α} (h : Ends act s ok bad) (hs : act s = .ok a s') : ok a s' :=
  (ends_iff.mp h).1 a s' hs

theorem Ends.failure {e : Error} (h : Ends act s ok bad) (hs : act s = .error e s') : bad e s' :=
  (ends_iff.mp h).2 e s' hs

theorem Ends.mono (h : Ends act s ok bad) (hok : ∀ a s', ok a s' → ok' a s')
    (hbad : ∀ e s', bad e s' → bad' e s') : Ends act s ok' bad' := by
  rw [ends_iff] at h ⊢
  exact ⟨fun a s' hs => hok a s' (h.1 a s' hs), fun e s' hs => hbad e s' (h.2 e s' hs)⟩

theorem Ends.imp (h : Ends act s ok bad) (hok : ∀ a s', ok a s' → ok' a s') :
    Ends act s ok' bad :=
  h.mono hok fun _ _ he => he

/-- An action that cannot fail has a value. -/
theorem Ends.exists_ok (h : Ends act s ok fun _ _ => False) :
    ∃ a s', act s = .ok a s' ∧ ok a s' := by
  cases hact : act s with
  | ok a s' => exact ⟨a, s', rfl, h.value hact⟩
  | error e s' => exact (h.failure hact).elim

/-- An action that can only fail does so. -/
theorem Ends.exists_error (h : Ends act s (fun _ _ => False) bad) :
    ∃ e s', act s = .error e s' ∧ bad e s' := by
  cases hact : act s with
  | ok a s' => exact (h.value hact).elim
  | error e s' => exact ⟨e, s', rfl, h.failure hact⟩

/-- Actions with the same postconditions do the same. -/
theorem eq_of_ends_iff {act' : Action σ α}
    (h : ∀ (ok : α → σ → Prop) (bad : Error → σ → Prop), Ends act s ok bad ↔ Ends act' s ok bad) :
    act s = act' s := by
  have hends := (h (fun a t => act s = .ok a t) fun e t => act s = .error e t).mp
    (ends_iff.mpr ⟨fun _ _ ht => ht, fun _ _ ht => ht⟩)
  cases hact : act' s with
  | ok a t => exact hends.value hact
  | error e t => exact hends.failure hact

theorem seq_eq_ok {f : α → Action σ β} {y : β} :
    (act >>= f) s = .ok y s' ↔ ∃ x t, act s = .ok x t ∧ f x t = .ok y s' := by
  simp only [bind, EStateM.bind]
  cases act s <;> simp

theorem ofExcept_eq_ok {r : Except Error α} {x : α} :
    Action.ofExcept r s = .ok x s' ↔ r = .ok x ∧ s' = s := by
  cases r <;> simp [Action.ofExcept, eq_comm]

/-- However the action ends, the state it leaves is related to the one it started in. -/
def Keeps (R : σ → σ → Prop) (act : Action σ α) : Prop :=
  ∀ s, Ends act s (fun _ s' => R s s') (fun _ s' => R s s')

section Keeps

variable {R : σ → σ → Prop}

theorem Keeps.bind {f : α → Action σ β} (h : Keeps R act)
    (htrans : ∀ {a b c}, R a b → R b c → R a c) (hf : ∀ a, Keeps R (f a)) :
    Keeps R (act >>= f) := by
  intro s
  rw [ends_bind]
  apply (h s).mono ?_ fun _ _ ht => ht
  intro a t ht
  exact (hf a t).mono (fun _ _ hu => htrans ht hu) fun _ _ hu => htrans ht hu

theorem keeps_ofExcept (hrefl : ∀ s, R s s) (r : Except Error α) : Keeps R (Action.ofExcept r) :=
  fun s => ends_ofExcept.mpr (gives_of_ok (fun _ _ => hrefl s) fun _ => hrefl s)

theorem keeps_query (hrefl : ∀ s, R s s) (f : σ → Except Error α) : Keeps R (query f) :=
  fun s => ends_query.mpr (gives_of_ok (fun _ _ => hrefl s) fun _ => hrefl s)

theorem keeps_update {f : σ → Except Error σ} (hrefl : ∀ s, R s s)
    (hf : ∀ s s', f s = .ok s' → R s s') : Keeps R (update f) :=
  fun s => ends_update.mpr (gives_of_ok (fun s' hs => hf s s' hs) fun _ => hrefl s)

end Keeps

end Action

end FlatMachine
