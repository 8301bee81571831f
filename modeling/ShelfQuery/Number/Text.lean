import ShelfQuery.Number.Shortest
import ShelfQuery.Text.Words

set_option autoImplicit false

namespace ShelfQuery.Number

open ShelfQuery.Text

def signText (negative : Bool) : String := if negative then "-" else ""

def positional (d : Decimal) : String :=
  let digits := toString d.coefficient
  if 0 ≤ d.exponent then
    if d.coefficient = 0 then digits else digits ++ zeros d.exponent.toNat
  else
    let places := (-d.exponent).toNat
    if places < digits.length then
      String.ofList (digits.toList.take (digits.length - places)) ++ "." ++
        String.ofList (digits.toList.drop (digits.length - places))
    else "0." ++ zeros (places - digits.length) ++ digits

/-- The shortest digits, never with an exponent, and no point for an integer. -/
def plain (x : Float) : String :=
  match Binary64.read x with
  | .finite negative mantissa exponent => signText negative ++ positional (shortest mantissa exponent)
  | .infinite negative => signText negative ++ "inf"
  | .notANumber => "NaN"

/-- As `plain`, but integers below ten to the sixteenth keep one decimal. -/
def literal (x : Float) : String :=
  match Binary64.toInt? x with
  | some n => if n.natAbs < Nat.pow 10 16 then plain x ++ ".0" else plain x
  | none => plain x

def scientific (d : Decimal) : String :=
  let digits := toString d.coefficient
  let power := d.exponent + (digits.length - 1 : Nat)
  let tail := (if power < 0 then "e" else "e+") ++ toString power
  match digits.toList with
  | first :: second :: rest => String.ofList (first :: '.' :: second :: rest) ++ tail
  | _ => digits ++ tail

/-- The number format of data interchange: a point is always written unless there is an exponent,
and an exponent is written from ten to the sixteenth up and below ten to the minus five.
Numbers that are not finite have no such text and become `null`. -/
def json (x : Float) : String :=
  match Binary64.read x with
  | .finite negative mantissa exponent =>
    let d := shortest mantissa exponent
    let size := d.exponent + ((toString d.coefficient).length : Int)
    let text :=
      if d.coefficient = 0 then "0.0"
      else if size ≤ -5 ∨ 16 < size then scientific d
      else if 0 ≤ d.exponent then positional d ++ ".0"
      else positional d
    signText negative ++ text
  | _ => "null"

/-- The magnitude with `places` decimals, rounding the exact value, a half to the even neighbour. -/
def fixed (places : Nat) (x : Float) : String :=
  match Binary64.read x with
  | .finite _ mantissa exponent =>
    let (n, d) := Binary64.scale (mantissa * Nat.pow 10 places) 1 exponent
    let units := roundHalfEven n d
    if places = 0 then toString units
    else toString (units / Nat.pow 10 places) ++ "." ++ padded places (units % Nat.pow 10 places)
  | .infinite _ => "inf"
  | .notANumber => "NaN"

def takeDigits (cs : List Char) : List Char × List Char := (cs.takeWhile Char.isDigit, cs.dropWhile Char.isDigit)

def valueOf (digits : List Char) : Nat :=
  digits.foldl (fun n c => n * 10 + (c.toNat - '0'.toNat)) 0

def parseExponent? : List Char → Option Int
  | [] => some 0
  | c :: rest =>
    if c = 'e' ∨ c = 'E' then
      let (negative, digits) :=
        match rest with
        | '+' :: digits => (false, digits)
        | '-' :: digits => (true, digits)
        | digits => (false, digits)
      (digitsValue? digits).map fun n => if negative then -(n : Int) else n
    else none

def parseUnsigned? (negative : Bool) (cs : List Char) : Option Float :=
  let (whole, rest) := takeDigits cs
  let (fraction, rest) :=
    match rest with
    | '.' :: rest => takeDigits rest
    | rest => ([], rest)
  if whole.isEmpty && fraction.isEmpty then none
  else
    (parseExponent? rest).map fun exponent =>
      Binary64.ofDecimal negative (valueOf (whole ++ fraction)) (exponent - fraction.length)

def infinity (negative : Bool) : Float :=
  Float.ofBits (UInt64.ofNat ((if negative then Nat.pow 2 63 else 0) + 2047 * Nat.pow 2 52))

def notANumber : Float := Float.ofBits (UInt64.ofNat (2047 * Nat.pow 2 52 + Nat.pow 2 51))

def parse? (s : String) : Option Float :=
  let (negative, rest) :=
    match s.toList with
    | '+' :: rest => (false, rest)
    | '-' :: rest => (true, rest)
    | rest => (false, rest)
  let word := lower (String.ofList rest)
  if word = "inf" || word = "infinity" then some (infinity negative)
  else if word = "nan" then some notANumber
  else parseUnsigned? negative rest

end ShelfQuery.Number
