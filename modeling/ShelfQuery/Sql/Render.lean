import ShelfQuery.Sql.Tree
import ShelfQuery.Schema.DataType

set_option autoImplicit false

namespace ShelfQuery.Sql

open ShelfQuery.Schema ShelfQuery.Text

/-- What a text depends on besides the tree: the dialect, and the conditions, already written, that
totals repeat. -/
structure Setting where
  dialect : Dialect
  filters : List String := []

def quoteText (s : String) : String :=
  String.ofList ('\'' :: s.toList.flatMap (fun c => if c = '\'' then ['\'', '\''] else [c]) ++ ['\''])

def Literal.render : Literal → String
  | .null => "NULL"
  | .bool b => if b then "true" else "false"
  | .int n => toString n
  | .float x => Number.literal x
  | .text s => quoteText s
  | .date d => quoteText d.text
  | .datetime m => quoteText m.text

def ArithOp.symbol : ArithOp → String
  | .add => "+"
  | .sub => "-"
  | .mul => "*"
  | .div => "/"
  | .concat => "||"

def CompareOp.symbol : CompareOp → String
  | .eq => "="
  | .ne => "!="
  | .lt => "<"
  | .le => "<="
  | .gt => ">"
  | .ge => ">="
  | .like => "LIKE"

def CastType.name : CastType → String
  | .float => "FLOAT"
  | .varchar => "VARCHAR"
  | .integer => "INTEGER"

def atomic : Nat := 100

def ArithOp.precedence : ArithOp → Nat
  | .mul => 8
  | .div => 8
  | _ => 7

def precedence : Sql → Nat
  | .neg _ => 9
  | .arith op _ _ => op.precedence
  | .compare _ _ _ => 5
  | .isNull _ _ => 5
  | .between _ _ _ => 5
  | .inList _ _ negated => if negated then atomic else 5
  | .not _ => 4
  | .and _ => 3
  | .or _ => 2
  | _ => atomic

/-- Puts an operand's text in parentheses when it binds looser than its surroundings, or as loose
where `strict` says so. -/
def guard (child : Sql) (parent : Nat) (strict : Bool) (text : String) : String :=
  if child.precedence < parent || (strict && child.precedence == parent) then "(" ++ text ++ ")" else text

def renderTrunc (unit : TruncUnit) (arg : String) (datetime : Bool) : Dialect → String
  | .postgresql => "date_trunc('" ++ unit.name ++ "', " ++ arg ++ ")"
  | .bigquery =>
    let part := if unit = .week then "week(monday)" else unit.name
    if datetime then "datetime(timestamp_trunc(" ++ arg ++ ", " ++ part ++ "))"
    else "date_trunc(" ++ arg ++ ", " ++ part ++ ")"
  | .sqlite =>
    match unit with
    | .year => "date(" ++ arg ++ ", 'start of year')"
    | .month => "date(" ++ arg ++ ", 'start of month')"
    | .day => "date(" ++ arg ++ ")"
    | .week => "date(" ++ arg ++ ", '-6 days', 'weekday 1')"
    | .quarter =>
      "date(" ++ arg ++ ", 'start of month', printf('-%d months', (CAST(strftime('%m', " ++ arg ++
        ") AS INTEGER) - 1) % 3))"

def renderPercentile (n : Nat) (arg : String) : Dialect → String
  | .bigquery => "approx_quantiles(" ++ arg ++ ", 100)[OFFSET(" ++ toString n ++ ")]"
  | _ =>
    "percentile_cont(" ++ Number.literal (Number.Binary64.ofRatio false n 100) ++
      ") WITHIN GROUP (ORDER BY " ++ arg ++ ")"

mutual

def render (s : Setting) : Sql → String
  | .column table name => table ++ "." ++ name
  | .literal l => l.render
  | .star => "*"
  | .arith op left right =>
    guard left op.precedence false (left.render s) ++ " " ++ op.symbol ++ " " ++
      guard right op.precedence (op == .sub || op == .div) (right.render s)
  | .compare op left right =>
    guard left 5 true (left.render s) ++ " " ++ op.symbol ++ " " ++ guard right 5 true (right.render s)
  | .and items => join " AND " (renderGuarded s 3 items)
  | .or items => join " OR " (renderGuarded s 2 items)
  | .not arg => "NOT " ++ guard arg atomic false (arg.render s)
  | .neg arg => "-" ++ guard arg atomic false (arg.render s)
  | .isNull arg negated =>
    guard arg 5 true (arg.render s) ++ " IS " ++ (if negated then "NOT " else "") ++ "NULL"
  | .inList arg items negated =>
    let list := join ", " (renderAll s items)
    let arg := guard arg 5 true (arg.render s)
    if negated then "(" ++ arg ++ " NOT IN (" ++ list ++ "))" else arg ++ " IN (" ++ list ++ ")"
  | .between arg low high =>
    guard arg 5 true (arg.render s) ++ " BETWEEN " ++ guard low 5 true (low.render s) ++ " AND " ++
      guard high 5 true (high.render s)
  | .cast arg type => "CAST(" ++ arg.render s ++ " AS " ++ type.name ++ ")"
  | .case whens otherwise =>
    "CASE" ++ String.join (renderWhens s whens) ++ renderElse s otherwise ++ " END"
  | .func name args => name ++ "(" ++ join ", " (renderAll s args) ++ ")"
  | .countDistinct arg => "count(DISTINCT " ++ guard arg atomic false (arg.render s) ++ ")"
  | .dateTrunc unit arg datetime => renderTrunc unit (arg.render s) datetime s.dialect
  | .percentile n arg => renderPercentile n (arg.render s) s.dialect
  | .total table arg =>
    "(SELECT " ++ arg.render s ++ " FROM " ++ table ++
      (if s.filters.isEmpty then "" else " WHERE " ++ join " AND " s.filters) ++ ")"

def renderAll (s : Setting) : List Sql → List String
  | [] => []
  | item :: rest => item.render s :: renderAll s rest

def renderGuarded (s : Setting) (parent : Nat) : List Sql → List String
  | [] => []
  | item :: rest => guard item parent false (item.render s) :: renderGuarded s parent rest

def renderWhens (s : Setting) : List (Sql × Sql) → List String
  | [] => []
  | (condition, value) :: rest =>
    (" WHEN " ++ guard condition atomic false (condition.render s) ++ " THEN " ++ value.render s) ::
      renderWhens s rest

def renderElse (s : Setting) : Option Sql → String
  | none => ""
  | some value => " ELSE " ++ value.render s

end

def renderConjunct (s : Setting) (sql : Sql) : String := guard sql 3 false (sql.render s)

end ShelfQuery.Sql
