/-!
# Random numbers

A generator of 64-bit numbers whose whole state is one counter: the counter advances by a fixed odd
step and the output is the counter with its bits mixed.
-/

namespace FlatMachine

/-- The state of a generator. -/
structure Random where
  counter : UInt64
  deriving DecidableEq, Inhabited

namespace Random

def ofSeed (seed : Nat) : Random := ⟨UInt64.ofNat seed⟩

/-- The next number and the generator after it. -/
def next (r : Random) : UInt64 × Random :=
  let counter := r.counter + 0x9E3779B97F4A7C15
  let z := (counter ^^^ (counter >>> 30)) * 0xBF58476D1CE4E5B9
  let z := (z ^^^ (z >>> 27)) * 0x94D049BB133111EB
  (z ^^^ (z >>> 31), ⟨counter⟩)

def below (bound : Nat) (r : Random) : Nat × Random :=
  let (n, r) := r.next
  (n.toNat % bound, r)

end Random

end FlatMachine
