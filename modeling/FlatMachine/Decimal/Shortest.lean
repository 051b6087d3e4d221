/-!
# Shortest decimals

A binary floating-point number is `m * 2 ^ q`. Its shortest decimal is the one with the fewest
digits among those that are read back as the same number, that is, that lie in the interval of
reals rounding to it (ends included when `m` is even); of two such decimals the nearer one is taken,
and the larger one on a tie.
-/

namespace FlatMachine.Decimal

/-- A finite positive binary number `mantissa * 2 ^ exponent`. The gap to the next smaller number is
half the gap to the next larger one at `atBinade`. -/
structure Binary where
  mantissa : Nat
  exponent : Int
  atBinade : Bool

/-- A decimal `digits * 10 ^ exponent`. -/
structure Shortest where
  digits : Nat
  exponent : Int

namespace Binary

/-- Four times the number, over `denominator`. -/
def numerator (b : Binary) : Nat := (4 * b.mantissa) <<< b.exponent.toNat

/-- The denominator of the fractions below. -/
def denominator (b : Binary) : Nat := 4 <<< (-b.exponent).toNat

/-- The lower end of the rounding interval, over `denominator`. -/
def low (b : Binary) : Nat :=
  (4 * b.mantissa - if b.atBinade then 1 else 2) <<< b.exponent.toNat

/-- The upper end of the rounding interval, over `denominator`. -/
def high (b : Binary) : Nat := (4 * b.mantissa + 2) <<< b.exponent.toNat

/-- `digits * 10 ^ exponent` is read back as the number. -/
def accepts (b : Binary) (digits : Nat) (exponent : Int) : Bool :=
  let value := digits * Nat.pow 10 exponent.toNat * b.denominator
  let scale := Nat.pow 10 (-exponent).toNat
  if b.mantissa % 2 == 0 then b.low * scale ≤ value && value ≤ b.high * scale
  else b.low * scale < value && value < b.high * scale

/-- The number's two neighbours on the grid of multiples of `10 ^ exponent`, as far as they are read
back as the number; the nearer one, or the larger one on a tie. -/
def onGrid? (b : Binary) (exponent : Int) : Option Nat :=
  let top := b.numerator * Nat.pow 10 (-exponent).toNat
  let unit := b.denominator * Nat.pow 10 exponent.toNat
  let down := top / unit
  let rest := top % unit
  match b.accepts down exponent, b.accepts (down + 1) exponent with
  | true, true => some (if 2 * rest < unit then down else down + 1)
  | true, false => some down
  | false, true => some (down + 1)
  | false, false => none

/-- The first hit on the grids from `10 ^ exponent` downwards. -/
def search (b : Binary) : Nat → Int → Shortest
  | 0, exponent => ⟨b.numerator / b.denominator, exponent⟩
  | fuel + 1, exponent =>
    match b.onGrid? exponent with
    | some digits => ⟨digits, exponent⟩
    | none => b.search fuel (exponent - 1)

/-- The shortest decimal. The first grid is coarser than the number; a double needs at most
seventeen digits, so a hit is met within the next forty grids. -/
def shortest (b : Binary) : Shortest :=
  let bits : Int := b.mantissa.log2 + b.exponent
  b.search 40 (Int.fdiv (bits * 30103) 100000 + 2)

end Binary

/-- Digits with a point where needed and no exponent: `1`, `0.5`, `1000000000000000000000`. -/
def Shortest.positional (s : Shortest) : String :=
  let digits := Nat.toDigits 10 s.digits
  if 0 ≤ s.exponent then String.ofList (digits ++ List.replicate s.exponent.toNat '0')
  else
    let places := (-s.exponent).toNat
    if places < digits.length then
      String.ofList (digits.take (digits.length - places) ++ ['.'] ++
        digits.drop (digits.length - places))
    else
      String.ofList (['0', '.'] ++ List.replicate (places - digits.length) '0' ++ digits)

end FlatMachine.Decimal
