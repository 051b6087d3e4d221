import FlatMachine.Error

/-!
# Actions

An action changes a state and may fail; a failure keeps the state that was reached. The lifts below
build actions from pure functions and let an action on a part act on the whole.
-/

namespace FlatMachine

/-- A computation on a state that yields a value or an error, and the state reached. -/
abbrev Action (σ α : Type) := EStateM Error σ α

namespace Action

variable {σ τ α : Type}

/-- A result that does not look at the state. -/
@[inline] def ofExcept (r : Except Error α) : Action σ α := fun s =>
  match r with
  | .ok a => .ok a s
  | .error e => .error e s

/-- Looks at the state and leaves it alone. -/
@[inline] def query (f : σ → Except Error α) : Action σ α := fun s =>
  match f s with
  | .ok a => .ok a s
  | .error e => .error e s

/-- Replaces the state, or fails and leaves it alone. -/
@[inline] def update (f : σ → Except Error σ) : Action σ Unit := fun s =>
  match f s with
  | .ok s' => .ok () s'
  | .error e => .error e s

/-- Yields a value and replaces the state, or fails and leaves it alone. -/
@[inline] def advance (f : σ → Except Error (α × σ)) : Action σ α := fun s =>
  match f s with
  | .ok (a, s') => .ok a s'
  | .error e => .error e s

/-- An action on a part of the state. While it acts, the state holds an empty part, so that the
part has no other owner and is changed in place. -/
@[inline] def within [Inhabited σ] (get : τ → σ) (set : σ → τ → τ) (act : Action σ α) :
    Action τ α := fun t =>
  let part := get t
  let rest := set default t
  match act part with
  | .ok a s => .ok a (set s rest)
  | .error e s => .error e (set s rest)

@[inline] def mapError (f : Error → Error) (act : Action σ α) : Action σ α := fun s =>
  match act s with
  | .ok a s' => .ok a s'
  | .error e s' => .error (f e) s'

end Action

end FlatMachine
