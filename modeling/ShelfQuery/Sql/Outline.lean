import ShelfQuery.Data.Json
import ShelfQuery.Sql.Render

set_option autoImplicit false

namespace ShelfQuery.Sql

open ShelfQuery.Data ShelfQuery.Calendar

def ArithOp.all : List ArithOp := [.add, .sub, .mul, .div, .concat]

def CompareOp.all : List CompareOp := [.eq, .ne, .lt, .le, .gt, .ge, .like]

def CastType.all : List CastType := [.float, .varchar, .integer]

def dateOf? (s : String) : Option Date := Date.ofPattern? dashedDate s.toList

def momentOf? (s : String) : Option DateTime :=
  DateTime.ofPattern? (dashedDate ++ [.mark 'T'] ++ longTime) s.toList

def literalOf? (kind : String) (value : Json) : Option Literal :=
  match kind, value with
  | "bool", .bool b => some (.bool b)
  | "int", .int n => some (.int n)
  | "float", .float x => some (.float x)
  | "float", .int n => some (.float (Number.Binary64.ofInt n))
  | "str", .str s => some (.text s)
  | "date", .str s => (dateOf? s).map .date
  | "datetime", .str s => (momentOf? s).map .datetime
  | _, _ => none

def mirrored? : Sql → Option Sql
  | .compare op left right => some (.compare op.mirror right left)
  | _ => none

def ofOutlineWith : (fuel : Nat) → Json → Option Sql
  | 0, _ => none
  | fuel + 1, .arr (.str kind :: parts) => do
    let read := Sql.ofOutlineWith fuel
    match kind, parts with
    | "col", [.str table, .str name] => some (.column table name)
    | "null", [] => some .null
    | "star", [] => some .star
    | "arith", [.str op, l, r] => some (.arith (← ArithOp.all.find? (·.symbol == op)) (← read l) (← read r))
    | "cmp", [.str op, l, r] => some (.compare (← CompareOp.all.find? (·.symbol == op)) (← read l) (← read r))
    | "mirror", [x] => (← read x).mirrored?
    | "and", [.arr items] => some (.and (← items.mapM read))
    | "or", [.arr items] => some (.or (← items.mapM read))
    | "and_all", [.arr items] => some (Sql.allOf (← items.mapM read))
    | "or_all", [.arr items] => some (Sql.anyOf (← items.mapM read))
    | "not", [x] => some (.not (← read x))
    | "negate", [x] => some (← read x).negate
    | "neg", [x] => some (.neg (← read x))
    | "isnull", [x, .bool negated] => some (.isNull (← read x) negated)
    | "in", [x, .arr items, .bool negated] => some (.inList (← read x) (← items.mapM read) negated)
    | "between", [x, low, high] => some (.between (← read x) (← read low) (← read high))
    | "cast", [x, .str type] => some (.cast (← read x) (← CastType.all.find? (·.name == type)))
    | "case", [.arr whens, otherwise] =>
      let whens ← whens.mapM fun w =>
        match w with
        | .arr [condition, value] => do return (← read condition, ← read value)
        | _ => none
      match otherwise with
      | .null => some (.case whens none)
      | v => some (.case whens (some (← read v)))
    | "func", [.str name, .arr args] => some (.func name (← args.mapM read))
    | "count_distinct", [x] => some (.countDistinct (← read x))
    | "trunc", [.str unit, x, .bool datetime] => some (.dateTrunc (← TruncUnit.ofName? unit) (← read x) datetime)
    | "percentile", [.int n, x] => if 0 ≤ n then some (.percentile n.toNat (← read x)) else none
    | "total", [.str table, x] => some (.total table (← read x))
    | kind, [value] => (literalOf? kind value).map .literal
    | _, _ => none
  | _, _ => none

def ofOutline? (outline : Json) : Option Sql := Sql.ofOutlineWith (outline.depth + 1) outline

end ShelfQuery.Sql
