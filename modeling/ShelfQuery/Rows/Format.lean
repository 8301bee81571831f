import ShelfQuery.Rows.Cell

set_option autoImplicit false

namespace ShelfQuery.Rows

structure Format where
  currency : Bool
  grouping : Bool
  precision : Nat
  percent : Bool
  deriving DecidableEq

namespace Format

def named : String → String
  | "comma" => ",.0f"
  | "dollar" => "$,.2f"
  | "$" => "$,.2f"
  | "percent" => ".0%"
  | format => format

def dropMark (mark : Char) : List Char → Bool × List Char
  | c :: rest => if c == mark then (true, rest) else (false, c :: rest)
  | [] => (false, [])

/-- The number of decimals, if there is a point; a number that does not fit a word counts as absent. -/
def readPrecision : List Char → Option (Option Nat × List Char)
  | '.' :: rest =>
    let (digits, rest) := Number.takeDigits rest
    if digits.isEmpty then none else some ((Text.digitsValue? digits).filter (· < Nat.pow 2 64), rest)
  | cs => some (none, cs)

def parse? (format : String) : Option Format := do
  let (currency, rest) := dropMark '$' (named format).toList
  let (grouping, rest) := dropMark ',' rest
  let (precision, rest) ← readPrecision rest
  let percent ←
    match rest with
    | ['%'] => some true
    | ['f'] => some false
    | [] => if currency || grouping || precision.isSome then some false else none
    | _ => none
  return ⟨currency, grouping, precision.getD (if percent then 0 else 2), percent⟩

def group : List Char → List Char
  | [] => []
  | c :: rest => if rest.length % 3 = 0 ∧ rest ≠ [] then c :: ',' :: group rest else c :: group rest

def isZeroText (s : List Char) : Bool := s.all fun c => c == '0' || c == '.'

/-- The text of a number. A sign is written only if a digit other than zero is. -/
def number (f : Format) (x : Float) : String :=
  let x := if f.percent then x * 100 else x
  let text := (Number.fixed f.precision x).toList
  let whole := text.takeWhile (· != '.')
  let decimals := text.dropWhile (· != '.')
  (if x < 0 && !isZeroText text then "-" else "") ++ (if f.currency then "$" else "") ++
    String.ofList (if f.grouping then group whole else whole) ++ String.ofList decimals ++
    (if f.percent then "%" else "")

def apply (f : Format) : Cell → Cell
  | .int n => .text (f.number (Number.Binary64.ofInt n))
  | .real x => .text (f.number x)
  | cell => cell

end Format

end ShelfQuery.Rows
