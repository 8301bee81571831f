import ShelfQuery.Engine.Table
import ShelfQuery.Expression.Fold

set_option autoImplicit false

namespace ShelfQuery.Engine

open ShelfQuery.Rows ShelfQuery.Number ShelfQuery.Sql
open ShelfQuery.Expression (fitsWord)

def ofReal (x : Float) : Cell := if x.isNaN then .null else .real x

def ofBool (b : Bool) : Cell := .int (if b then 1 else 0)

def isSpace (c : Char) : Bool := c == ' ' || ('\t' ≤ c && c ≤ '\r')

def isNumberChar (c : Char) : Bool := c.isDigit || c == '+' || c == '-' || c == '.' || c == 'e' || c == 'E'

def wholeNumber? : List Char → Option Int
  | '-' :: digits => (Text.digitsValue? digits).map fun n => -(n : Int)
  | '+' :: digits => (Text.digitsValue? digits).map Int.ofNat
  | digits => (Text.digitsValue? digits).map Int.ofNat

def number? (cs : List Char) : Option Cell :=
  if cs.all isNumberChar then
    match (wholeNumber? cs).filter fitsWord with
    | some n => some (.int n)
    | none => (parse? (String.ofList cs)).map .real
  else none

def leadingNumber (s : String) : Cell :=
  let cs := (s.toList.dropWhile isSpace).takeWhile isNumberChar
  ((List.range (cs.length + 1)).reverse.findSome? fun n => number? (cs.take n)).getD (.int 0)

def wholeText? (s : String) : Option Cell :=
  number? (((s.toList.dropWhile isSpace).reverse.dropWhile isSpace).reverse)

def withPoint (s : String) : String := if s.toList.contains '.' then s else s ++ ".0"

def exponentText (power : Int) : String :=
  (if power < 0 then "e-" else "e+") ++ Text.padded 2 power.natAbs

/-- A real with at most fifteen digits and always a point; with an exponent from ten to the
fifteenth up and below ten to the minus four. -/
def realText (x : Float) : String :=
  match Binary64.read x with
  | .notANumber => ""
  | .infinite negative => signText negative ++ "Inf"
  | .finite negative mantissa exponent =>
    let d := significant 15 mantissa exponent
    let digits := (toString d.coefficient).length
    let power := d.exponent + (digits - 1 : Nat)
    signText (negative && mantissa ≠ 0) ++
      (if -4 ≤ power ∧ power ≤ 14 then withPoint (positional d)
        else withPoint (positional ⟨d.coefficient, -(digits - 1 : Nat)⟩) ++ exponentText power)

def asText : Cell → Cell
  | .int n => .text (toString n)
  | .real x => .text (realText x)
  | cell => cell

def asNumber : Cell → Cell
  | .text s => leadingNumber s
  | cell => cell

def asReal (cell : Cell) : Cell :=
  match asNumber cell with
  | .int n => .real (Binary64.ofInt n)
  | cell => cell

def clampWord (n : Int) : Int := max (-(Int.pow 2 63)) (min (Int.pow 2 63 - 1) n)

def truncate (x : Float) : Int :=
  match Binary64.toInt? (if x < 0 then x.ceil else x.floor) with
  | some n => clampWord n
  | none => if x < 0 then -(Int.pow 2 63) else if 0 < x then Int.pow 2 63 - 1 else 0

def leadingInteger (s : String) : Int :=
  match s.toList.dropWhile isSpace with
  | '-' :: rest => clampWord (-(valueOf (takeDigits rest).1 : Int))
  | '+' :: rest => clampWord (valueOf (takeDigits rest).1)
  | cs => clampWord (valueOf (takeDigits cs).1)

def asInteger : Cell → Cell
  | .real x => .int (truncate x)
  | .text s => .int (leadingInteger s)
  | cell => cell

/-- Brings a cell to an affinity: texts that are numbers become numbers, numbers become texts. -/
def Affinity.apply (a : Affinity) (cell : Cell) : Cell :=
  match a, cell with
  | .numeric, .text s => (wholeText? s).getD (.text s)
  | .text, cell => asText cell
  | _, cell => cell

def truth (cell : Cell) : Option Bool :=
  match asNumber cell with
  | .int n => some (n != 0)
  | .real x => some (x != 0)
  | _ => none

def ofTruth : Option Bool → Cell
  | some b => ofBool b
  | none => .null

def allTrue (ts : List (Option Bool)) : Option Bool :=
  if ts.contains (some false) then some false else if ts.contains none then none else some true

def anyTrue (ts : List (Option Bool)) : Option Bool :=
  if ts.contains (some true) then some true else if ts.contains none then none else some false

def notTrue (t : Option Bool) : Option Bool := t.map (!·)

/-- The order of an integer and a real, without rounding the integer. -/
def compareIntReal (n : Int) (x : Float) : Ordering :=
  match Binary64.toInt? x with
  | some m => compare n m
  | none => if Binary64.ofInt n < x then .lt else .gt

def compareCells : Cell → Cell → Ordering
  | .null, .null => .eq
  | .null, _ => .lt
  | _, .null => .gt
  | .int m, .int n => compare m n
  | .int m, .real y => compareIntReal m y
  | .real x, .int n => (compareIntReal n x).swap
  | .real x, .real y => (Expression.compareFloats x y).getD .eq
  | .text x, .text y => Expression.compareTexts x y
  | .text _, _ => .gt
  | _, .text _ => .lt

def sameCell (a b : Cell) : Bool := compareCells a b == .eq

def anySuffix (holds : List Char → Bool) : List Char → Bool
  | [] => holds []
  | c :: cs => holds (c :: cs) || anySuffix holds cs

def isLike : (pattern : List Char) → (text : List Char) → Bool
  | [], text => text.isEmpty
  | p :: pattern, text =>
    if p = '%' then anySuffix (isLike pattern) text
    else
      match text with
      | [] => false
      | c :: rest => (p == '_' || Text.lowerAscii p == Text.lowerAscii c) && isLike pattern rest

def likeCells (a b : Cell) : Option Bool :=
  match asText a, asText b with
  | .text x, .text y => some (isLike y.toList x.toList)
  | _, _ => none

def holds (op : CompareOp) (affinity : Affinity) (a b : Cell) : Option Bool :=
  if a.isNull || b.isNull then none
  else if op = .like then likeCells a b
  else Expression.holdsFor op (compareCells (affinity.apply a) (affinity.apply b))

def onReals (op : ArithOp) (x y : Float) : Cell :=
  match op with
  | .add => ofReal (x + y)
  | .sub => ofReal (x - y)
  | .mul => ofReal (x * y)
  | _ => if y == 0 then .null else ofReal (x / y)

def onIntegers (op : ArithOp) (m n : Int) : Cell :=
  let exact : Option Int := match op with
    | .add => some (m + n)
    | .sub => some (m - n)
    | .mul => some (m * n)
    | _ => if n = 0 then none else some (m.tdiv n)
  match exact with
  | none => .null
  | some r => if fitsWord r then .int r else onReals op (Binary64.ofInt m) (Binary64.ofInt n)

def concatenate (a b : Cell) : Cell :=
  match asText a, asText b with
  | .text x, .text y => .text (x ++ y)
  | _, _ => .null

def calculate (op : ArithOp) (a b : Cell) : Cell :=
  if op = .concat then concatenate a b
  else
    match asNumber a, asNumber b with
    | .int m, .int n => onIntegers op m n
    | .int m, .real y => onReals op (Binary64.ofInt m) y
    | .real x, .int n => onReals op x (Binary64.ofInt n)
    | .real x, .real y => onReals op x y
    | _, _ => .null

/-- A sum of reals, with what its additions lost kept apart. -/
structure RealSum where
  sum : Float := 0
  lost : Float := 0

namespace RealSum

def add (s : RealSum) (x : Float) : RealSum :=
  let t := s.sum + x
  ⟨t, s.lost + (if x.abs < s.sum.abs then (s.sum - t) + x else (x - t) + s.sum)⟩

def stepLimit : Nat := Nat.pow 2 52

def addInteger (s : RealSum) (n : Int) : RealSum :=
  if n.natAbs ≤ stepLimit then s.add (Binary64.ofInt n)
  else (s.add (Binary64.ofInt (n - n.tmod 16384))).add (Binary64.ofInt (n.tmod 16384))

def ofInteger (n : Int) : RealSum :=
  if n.natAbs ≤ stepLimit then ⟨Binary64.ofInt n, 0⟩
  else ⟨Binary64.ofInt (n - n.tmod 16384), Binary64.ofInt (n.tmod 16384)⟩

def total (s : RealSum) : Float := if Binary64.isFinite s.lost then s.sum + s.lost else s.sum

end RealSum

/-- A sum is exact as long as only integers are added and it fits a word. A sum of integers that
does not fit has overflowed. -/
inductive Sum where
  | exact (n : Int)
  | real (s : RealSum) (overflowed : Bool)

namespace Sum

/-- What is added for a cell: a text that is not a number counts as a real. -/
def operand : Cell → Cell
  | .text s => (wholeText? s).getD (asReal (leadingNumber s))
  | cell => cell

def add (s : Sum) (cell : Cell) : Sum :=
  match s, operand cell with
  | .exact m, .int n =>
    if fitsWord (m + n) then .exact (m + n) else .real ((RealSum.ofInteger m).addInteger n) true
  | .exact m, .real x => .real ((RealSum.ofInteger m).add x) false
  | .real s overflowed, .int n => .real (s.addInteger n) overflowed
  | .real s _, .real x => .real (s.add x) false
  | s, _ => s

def hasOverflowed : Sum → Bool
  | .real _ overflowed => overflowed
  | .exact _ => false

def cell : Sum → Cell
  | .exact n => .int n
  | .real s _ => ofReal s.total

def value : Sum → Float
  | .exact n => Binary64.ofInt n
  | .real s _ => s.total

def ofCells (cells : List Cell) : Sum := cells.foldl add (.exact 0)

end Sum

def distinct : List Cell → List Cell
  | [] => []
  | c :: rest => if rest.any (sameCell c) then distinct rest else c :: distinct rest

def extreme (direction : Ordering) : List Cell → Cell
  | [] => .null
  | c :: rest => rest.foldl (fun best d => if compareCells d best == direction then d else best) c

def aggregate (name : String) (cells : List Cell) : Cell :=
  let cells := cells.filter fun c => !c.isNull
  match name with
  | "count" => .int cells.length
  | "sum" => if cells.isEmpty then .null else (Sum.ofCells cells).cell
  | "avg" => if cells.isEmpty then .null else ofReal ((Sum.ofCells cells).value / Binary64.ofInt cells.length)
  | "min" => extreme .lt cells
  | "max" => extreme .gt cells
  | _ => .null

end ShelfQuery.Engine
