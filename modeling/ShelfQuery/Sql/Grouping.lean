import ShelfQuery.Sql.Render

set_option autoImplicit false

/-!
# How the text of an expression groups

Operators of equal strength are written without parentheses and read from left to right. `Sql.regrouped` is the
expression that the text stands for.
-/

namespace ShelfQuery.Sql

def joins (outer inner : ArithOp) : Bool :=
  outer.precedence == inner.precedence && outer != .sub && outer != .div

/-- `left op right` with the operators of `right` taken in turn. -/
def attach (op : ArithOp) (left : Sql) : Sql → Sql
  | .arith inner a b =>
    if joins op inner then .arith inner (attach op left a) b else .arith op left (.arith inner a b)
  | right => .arith op left right

mutual

def regrouped : Sql → Sql
  | .column table name => .column table name
  | .literal value => .literal value
  | .star => .star
  | .arith op left right => attach op left.regrouped right.regrouped
  | .compare op left right => .compare op left.regrouped right.regrouped
  | .and items => .and (regroupedAll items)
  | .or items => .or (regroupedAll items)
  | .not arg => .not arg.regrouped
  | .neg arg => .neg arg.regrouped
  | .isNull arg negated => .isNull arg.regrouped negated
  | .inList arg items negated => .inList arg.regrouped (regroupedAll items) negated
  | .between arg low high => .between arg.regrouped low.regrouped high.regrouped
  | .cast arg type => .cast arg.regrouped type
  | .case whens otherwise => .case (regroupedWhens whens) (regroupedElse otherwise)
  | .func name args => .func name (regroupedAll args)
  | .countDistinct arg => .countDistinct arg.regrouped
  | .dateTrunc unit arg datetime => .dateTrunc unit arg.regrouped datetime
  | .percentile n arg => .percentile n arg.regrouped
  | .total table arg => .total table arg.regrouped

def regroupedAll : List Sql → List Sql
  | [] => []
  | item :: rest => item.regrouped :: regroupedAll rest

def regroupedWhens : List (Sql × Sql) → List (Sql × Sql)
  | [] => []
  | (condition, value) :: rest => (condition.regrouped, value.regrouped) :: regroupedWhens rest

def regroupedElse : Option Sql → Option Sql
  | none => none
  | some value => some value.regrouped

end

end ShelfQuery.Sql
