set_option autoImplicit false

namespace ShelfQuery.Number

/-- Rounding a quotient to an integer; a half goes to the even neighbour. -/
def roundHalfEven (num den : Nat) : Nat :=
  let quotient := num / den
  let twice := 2 * (num % den)
  if twice < den then quotient
  else if den < twice then quotient + 1
  else if quotient % 2 = 0 then quotient
  else quotient + 1

inductive Reading where
  | finite (negative : Bool) (mantissa : Nat) (exponent : Int)
  | infinite (negative : Bool)
  | notANumber

namespace Binary64

def mantissaBits : Nat := 52

def leastExponent : Int := -1074

def read (x : Float) : Reading :=
  let bits := x.toBits.toNat
  let negative := bits / Nat.pow 2 63 = 1
  let biased := bits / Nat.pow 2 mantissaBits % Nat.pow 2 11
  let fraction := bits % Nat.pow 2 mantissaBits
  if biased = 2047 then
    if fraction = 0 then .infinite negative else .notANumber
  else if biased = 0 then .finite negative fraction leastExponent
  else .finite negative (Nat.pow 2 mantissaBits + fraction) (leastExponent + (biased - 1 : Nat))

def isFinite (x : Float) : Bool :=
  match read x with
  | .finite _ _ _ => true
  | _ => false

/-- The bits of `mantissa * 2 ^ exponent` without a sign. The mantissa has at most 53 bits, and 53
unless the exponent is the least one; numbers past the largest double become infinite. -/
def pack (mantissa : Nat) (exponent : Int) : Nat :=
  if mantissa < Nat.pow 2 mantissaBits then mantissa
  else
    let biased := (exponent - leastExponent).toNat + 1
    if 2047 ≤ biased then 2047 * Nat.pow 2 mantissaBits
    else biased * Nat.pow 2 mantissaBits + (mantissa - Nat.pow 2 mantissaBits)

def scale (num den : Nat) (power : Int) : Nat × Nat :=
  if 0 ≤ power then (num * Nat.pow 2 power.toNat, den) else (num, den * Nat.pow 2 (-power).toNat)

/-- The exponent of the last place of the double nearest to `num / den`. -/
def lastPlace (num den : Nat) : Int :=
  let guess : Int := (Nat.log2 num : Int) - (Nat.log2 den : Int) - mantissaBits
  let (n, d) := scale num den (-guess)
  let exact := if n < d * Nat.pow 2 mantissaBits then guess - 1 else guess
  max exact leastExponent

def nearestMantissa (num den : Nat) : Nat :=
  let scaled := scale num den (-lastPlace num den)
  roundHalfEven scaled.1 scaled.2

/-- As `pack`, for a mantissa that rounding may have brought to `2 ^ 53`. -/
def packCarried (mantissa : Nat) (exponent : Int) : Nat :=
  if mantissa = Nat.pow 2 (mantissaBits + 1) then pack (Nat.pow 2 mantissaBits) (exponent + 1) else pack mantissa exponent

def ofRatio (negative : Bool) (num den : Nat) : Float :=
  let sign := if negative then Nat.pow 2 63 else 0
  let magnitude := if num = 0 then 0 else packCarried (nearestMantissa num den) (lastPlace num den)
  Float.ofBits (UInt64.ofNat (sign + magnitude))

def ofInt (n : Int) : Float := ofRatio (n < 0) n.natAbs 1

/-- The double nearest to `coefficient * 10 ^ exponent`. Magnitudes far outside the range of
doubles are settled by counting digits. -/
def ofDecimal (negative : Bool) (coefficient : Nat) (exponent : Int) : Float :=
  let size : Int := (toString coefficient).length + exponent
  if coefficient = 0 || size < -330 then ofRatio negative 0 1
  else if 330 < size then
    Float.ofBits (UInt64.ofNat ((if negative then Nat.pow 2 63 else 0) + 2047 * Nat.pow 2 mantissaBits))
  else if 0 ≤ exponent then ofRatio negative (coefficient * Nat.pow 10 exponent.toNat) 1
  else ofRatio negative coefficient (Nat.pow 10 (-exponent).toNat)

def toInt? (x : Float) : Option Int :=
  match read x with
  | .finite negative mantissa exponent =>
    let magnitude : Option Nat :=
      if 0 ≤ exponent then some (mantissa * Nat.pow 2 exponent.toNat)
      else if mantissa % Nat.pow 2 (-exponent).toNat = 0 then some (mantissa / Nat.pow 2 (-exponent).toNat)
      else none
    magnitude.map fun n => if negative then -(n : Int) else n
  | _ => none

end Binary64

end ShelfQuery.Number
