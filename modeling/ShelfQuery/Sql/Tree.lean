import ShelfQuery.Calendar.Relative
import ShelfQuery.Number.Text

set_option autoImplicit false

namespace ShelfQuery.Sql

open ShelfQuery.Calendar

inductive Literal where
  | null
  | bool (value : Bool)
  | int (value : Int)
  | float (value : Float)
  | text (value : String)
  | date (value : Date)
  | datetime (value : DateTime)

/-- The number a literal is, integers rounded to doubles. -/
def Literal.number? : Literal → Option Float
  | .int n => some (Number.Binary64.ofInt n)
  | .float x => some x
  | _ => none

inductive ArithOp where
  | add | sub | mul | div | concat
  deriving DecidableEq

inductive CompareOp where
  | eq | ne | lt | le | gt | ge | like
  deriving DecidableEq

namespace CompareOp

def inverse? : CompareOp → Option CompareOp
  | .eq => some .ne
  | .ne => some .eq
  | .lt => some .ge
  | .le => some .gt
  | .gt => some .le
  | .ge => some .lt
  | .like => none

def mirror : CompareOp → CompareOp
  | .lt => .gt
  | .le => .ge
  | .gt => .lt
  | .ge => .le
  | op => op

end CompareOp

inductive TruncUnit where
  | year | quarter | month | week | day
  deriving DecidableEq

namespace TruncUnit

def name : TruncUnit → String
  | .year => "year"
  | .quarter => "quarter"
  | .month => "month"
  | .week => "week"
  | .day => "day"

def ofName? (name : String) : Option TruncUnit :=
  match Text.lower name with
  | "year" => some .year
  | "quarter" => some .quarter
  | "month" => some .month
  | "week" => some .week
  | "day" => some .day
  | _ => none

end TruncUnit

inductive CastType where
  | float | varchar | integer
  deriving DecidableEq

end ShelfQuery.Sql

namespace ShelfQuery

open Sql in
/-- `total` is a scalar subquery over the whole table. -/
inductive Sql where
  | protected column (table name : String)
  | protected literal (value : Literal)
  | protected star
  | protected arith (op : ArithOp) (left right : Sql)
  | protected compare (op : CompareOp) (left right : Sql)
  | protected and (items : List Sql)
  | protected or (items : List Sql)
  | protected not (arg : Sql)
  | protected neg (arg : Sql)
  | protected isNull (arg : Sql) (negated : Bool)
  | protected inList (arg : Sql) (items : List Sql) (negated : Bool)
  | protected between (arg low high : Sql)
  | protected cast (arg : Sql) (type : CastType)
  | protected case (whens : List (Sql × Sql)) (otherwise : Option Sql)
  | protected func (name : String) (args : List Sql)
  | protected countDistinct (arg : Sql)
  | protected dateTrunc (unit : TruncUnit) (arg : Sql) (datetime : Bool)
  | protected percentile (n : Nat) (arg : Sql)
  | protected total (table : String) (arg : Sql)

end ShelfQuery

namespace ShelfQuery.Sql

def null : Sql := .literal .null

def literal? : Sql → Option Literal
  | .literal l => some l
  | _ => none

def isLiteral : Sql → Bool
  | .literal _ => true
  | _ => false

def isNullLiteral : Sql → Bool
  | .literal .null => true
  | _ => false

/-- Conditions to be joined by AND, with true ones left out and joined ones opened; `none` when one
of them is false. -/
def conjuncts? : List Sql → Option (List Sql)
  | [] => some []
  | .literal (.bool true) :: rest => conjuncts? rest
  | .literal (.bool false) :: _ => none
  | .and inner :: rest => (conjuncts? rest).map (inner ++ ·)
  | item :: rest => (conjuncts? rest).map (item :: ·)

/-- Conditions to be joined by OR, with false ones left out and joined ones opened; `none` when one
of them is true. -/
def disjuncts? : List Sql → Option (List Sql)
  | [] => some []
  | .literal (.bool false) :: rest => disjuncts? rest
  | .literal (.bool true) :: _ => none
  | .or inner :: rest => (disjuncts? rest).map (inner ++ ·)
  | item :: rest => (disjuncts? rest).map (item :: ·)

def allOf (items : List Sql) : Sql :=
  match conjuncts? items with
  | none => .literal (.bool false)
  | some [] => .literal (.bool true)
  | some [item] => item
  | some items => .and items

def anyOf (items : List Sql) : Sql :=
  match disjuncts? items with
  | none => .literal (.bool true)
  | some [] => .literal (.bool false)
  | some [item] => item
  | some items => .or items

def negate : Sql → Sql
  | .literal (.bool b) => .literal (.bool (!b))
  | .not arg => arg
  | .compare op left right =>
    match op.inverse? with
    | some inverse => .compare inverse left right
    | none => .not (.compare op left right)
  | .isNull arg negated => .isNull arg (!negated)
  | .inList arg items negated => .inList arg items (!negated)
  | other => .not other

end ShelfQuery.Sql
