import ShelfQuery.Number.Binary64

set_option autoImplicit false

/-!
# The fewest digits that read back

Among the decimals with the fewest digits that round to a given double, the one nearest to it; of two equally near
ones the larger.
-/

namespace ShelfQuery.Number

structure Decimal where
  coefficient : Nat
  exponent : Int

namespace Shortest

/-- The interval of reals that round to a double, as numerators over a common denominator. -/
structure Interval where
  low : Nat
  value : Nat
  high : Nat
  den : Nat
  closed : Bool

/-- The gap below a power of two is half as wide as the gap above it. -/
def interval (mantissa : Nat) (exponent : Int) : Interval :=
  let narrow := mantissa = Nat.pow 2 Binary64.mantissaBits ∧ Binary64.leastExponent < exponent
  let low := 4 * mantissa - (if narrow then 1 else 2)
  let power := exponent - 2
  let (up, den) := if 0 ≤ power then (Nat.pow 2 power.toNat, 1) else (1, Nat.pow 2 (-power).toNat)
  ⟨low * up, 4 * mantissa * up, (4 * mantissa + 2) * up, den, mantissa % 2 = 0⟩

def scaled (den coefficient : Nat) (exponent : Int) : Nat × Nat :=
  if 0 ≤ exponent then (coefficient * Nat.pow 10 exponent.toNat * den, 1)
  else (coefficient * den, Nat.pow 10 (-exponent).toNat)

def Interval.holds (i : Interval) (coefficient : Nat) (exponent : Int) : Bool :=
  let (n, d) := scaled i.den coefficient exponent
  if i.closed then i.low * d ≤ n && n ≤ i.high * d else i.low * d < n && n < i.high * d

def Interval.floor (i : Interval) (exponent : Int) : Nat :=
  if 0 ≤ exponent then i.value / (i.den * Nat.pow 10 exponent.toNat)
  else i.value * Nat.pow 10 (-exponent).toNat / i.den

/-- Whether the grid point above the value is at least as near as the one below. -/
def Interval.upperNearer (i : Interval) (below : Nat) (exponent : Int) : Bool :=
  let (n, d) := scaled i.den (2 * below + 1) exponent
  n ≤ 2 * i.value * d

/-- The power of ten just above the value: `10 ^ (p - 1) ≤ value < 10 ^ p`. -/
def Interval.power (i : Interval) : Int :=
  let guess : Int := ((toString i.value).length : Int) - ((toString i.den).length : Int)
  let (n, d) := scaled i.den 1 guess
  if n ≤ i.value * d then guess + 1 else guess

def Interval.search (i : Interval) (power : Int) : (fuel count : Nat) → Decimal
  | 0, count => ⟨i.floor (power - count), power - count⟩
  | fuel + 1, count =>
    let exponent := power - count
    let below := i.floor exponent
    match i.holds below exponent, i.holds (below + 1) exponent with
    | true, true => ⟨if i.upperNearer below exponent then below + 1 else below, exponent⟩
    | true, false => ⟨below, exponent⟩
    | false, true => ⟨below + 1, exponent⟩
    | false, false => i.search power fuel (count + 1)

def strip : (fuel : Nat) → Decimal → Decimal
  | 0, d => d
  | fuel + 1, d =>
    if d.coefficient ≠ 0 ∧ d.coefficient % 10 = 0 then
      strip fuel ⟨d.coefficient / 10, d.exponent + 1⟩
    else d

end Shortest

/-- The shortest decimal that rounds to `mantissa * 2 ^ exponent`; zero is `0 * 10 ^ 0`. -/
def shortest (mantissa : Nat) (exponent : Int) : Decimal :=
  if mantissa = 0 then ⟨0, 0⟩
  else
    let i := Shortest.interval mantissa exponent
    Shortest.strip 20 (i.search i.power 17 1)

def significant (digits mantissa : Nat) (exponent : Int) : Decimal :=
  if mantissa = 0 then ⟨0, 0⟩
  else
    let i := Shortest.interval mantissa exponent
    let unit := i.power - digits
    let below := i.floor unit
    Shortest.strip 20 ⟨if i.upperNearer below unit then below + 1 else below, unit⟩

end ShelfQuery.Number
