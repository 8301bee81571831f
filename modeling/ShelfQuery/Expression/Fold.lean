import ShelfQuery.Expression.Fault
import ShelfQuery.Sql.Tree

set_option autoImplicit false

namespace ShelfQuery.Expression

open ShelfQuery.Sql ShelfQuery.Number

def fitsWord (n : Int) : Bool := -(Int.pow 2 63) ≤ n && n < Int.pow 2 63

def wordOr (exact : Int) (approximate : Float) : Literal :=
  if fitsWord exact then .int exact else .float approximate

def Arith.onFloats (op : Arith) (x y : Float) : Float :=
  match op with
  | .add => x + y
  | .sub => x - y
  | .mul => x * y
  | .div => x / y

def Arith.onInts? (op : Arith) (x y : Int) : Option Int :=
  match op with
  | .add => some (x + y)
  | .sub => some (x - y)
  | .mul => some (x * y)
  | .div => none

def foldNumbers (op : Arith) (a b : Literal) : Literal :=
  match a.number?, b.number? with
  | some x, some y =>
    match a, b with
    | .int m, .int n =>
      match op.onInts? m n with
      | some exact => wordOr exact (op.onFloats x y)
      | none => .float (op.onFloats x y)
    | _, _ => .float (op.onFloats x y)
  | _, _ => .null

def isZero (l : Literal) : Bool :=
  match l.number? with
  | some x => x == 0
  | none => false

def isOne (l : Literal) : Bool :=
  match l.number? with
  | some x => x == 1
  | none => false

def isFiniteLiteral : Literal → Bool
  | .float x => Binary64.isFinite x
  | _ => true

/-- Arithmetic on two literals. Null gives null, texts are joined, and a zero divisor or a result
that is not finite is a fault. -/
def foldArith (op : Arith) (a b : Literal) : Except Fault Literal :=
  let finite (l : Literal) : Except Fault Literal :=
    if isFiniteLiteral l then .ok l else .error .notFinite
  match op, a, b with
  | _, .null, _ => .ok .null
  | _, _, .null => .ok .null
  | .add, .text x, .text y => .ok (.text (x ++ y))
  | .div, a, b =>
    if isZero b then .error .divisionByZero
    else if isOne b then finite a
    else finite (foldNumbers .div a b)
  | op, a, b => finite (foldNumbers op a b)

def negateLiteral : Literal → Literal
  | .int n => wordOr (-n) (-(Binary64.ofInt n))
  | .float x => .float (-x)
  | _ => .null

def compareFloats (x y : Float) : Option Ordering :=
  if x < y then some .lt else if x == y then some .eq else if y < x then some .gt else none

def compareTexts (x y : String) : Ordering :=
  if Text.before x.toList y.toList then .lt else if x == y then .eq else .gt

def compareBools (x y : Bool) : Ordering :=
  if x == y then .eq else if y then .lt else .gt

def compareLiterals? (a b : Literal) : Option Ordering :=
  match a, b with
  | .text x, .text y => some (compareTexts x y)
  | .bool x, .bool y => some (compareBools x y)
  | a, b =>
    match a.number?, b.number? with
    | some x, some y => compareFloats x y
    | _, _ => none

def holdsFor (op : CompareOp) (o : Ordering) : Option Bool :=
  match op with
  | .eq => some (o == .eq)
  | .ne => some (o != .eq)
  | .lt => some (o == .lt)
  | .le => some (o != .gt)
  | .gt => some (o == .gt)
  | .ge => some (o != .lt)
  | .like => none

def foldCompare? (op : CompareOp) (a b : Literal) : Option Bool :=
  (compareLiterals? a b).bind (holdsFor op)

end ShelfQuery.Expression
