import ShelfQuery.Proofs.Sql.Reader.Parser
import ShelfQuery.Proofs.Sql.ThreeValued

set_option autoImplicit false

namespace ShelfQuery.Sql

open ShelfQuery.Schema
open ShelfQuery.Engine (allTrue anyTrue notTrue)

namespace Primitives

variable (p : Primitives)

def castTo (type : CastType) (v : Value) : Value := if v.isNull then .null else p.cast type v

/-- The remainder of operands that are cast to integers, with the sign of the first; null for a zero
divisor. -/
def modulo (a b : Value) : Value :=
  match p.castTo .integer a, p.castTo .integer b with
  | .num x, .num y =>
    let m := x.num.tdiv x.den
    let n := y.num.tdiv y.den
    if n = 0 then .null else .num (m.tmod n)
  | _, _ => .null

def truncated (unit : TruncUnit) (v : Value) : Value :=
  match unit with
  | .year => p.call "date" [v, .text "start of year"]
  | .month => p.call "date" [v, .text "start of month"]
  | .day => p.call "date" [v]
  | .week => p.call "date" [v, .text "-6 days", .text "weekday 1"]
  | .quarter =>
    let month := p.castTo .integer (p.call "strftime" [.text "%m", v])
    p.call "date" [v, .text "start of month",
      p.call "printf" [.text "-%d months", p.modulo (p.arith .sub month (.num 1)) (.num 3)]]

/-- A database whose functions give the kinds of values they should and that truncates dates as
SQLite does. -/
structure IsSqlite : Prop extends p.Lawful where
  truncates : ∀ unit datetime v, p.dateTrunc unit datetime v = p.truncated unit v

end Primitives

namespace Reader

structure Database where
  primitives : Primitives
  rows : String → List Row

structure Scope where
  table : String
  group : List Row
  row : Option Row

namespace Scope

def column (s : Scope) (table name : String) : Value :=
  if s.table = table then
    match s.row with
    | some row => row name
    | none => .null
  else .null

def onRow (s : Scope) (row : Row) : Scope := { s with row := some row }

end Scope

mutual

def Expr.hasAggregate : Expr → Bool
  | .column _ _ => false
  | .literal _ => false
  | .star => false
  | .arith _ left right => left.hasAggregate || right.hasAggregate
  | .modulo left right => left.hasAggregate || right.hasAggregate
  | .compare _ left right => left.hasAggregate || right.hasAggregate
  | .and left right => left.hasAggregate || right.hasAggregate
  | .or left right => left.hasAggregate || right.hasAggregate
  | .not arg => arg.hasAggregate
  | .neg arg => arg.hasAggregate
  | .isNull arg _ => arg.hasAggregate
  | .inList arg items _ => arg.hasAggregate || anyAggregate items
  | .between arg low high => arg.hasAggregate || low.hasAggregate || high.hasAggregate
  | .cast arg _ => arg.hasAggregate
  | .case whens otherwise => anyAggregateWhen whens || optionAggregate otherwise
  | .call name args => isAggregateName name || anyAggregate args
  | .countDistinct _ => true
  | .select _ _ _ => false

def anyAggregate : List Expr → Bool
  | [] => false
  | e :: rest => e.hasAggregate || anyAggregate rest

def anyAggregateWhen : List (Expr × Expr) → Bool
  | [] => false
  | (condition, value) :: rest => condition.hasAggregate || value.hasAggregate || anyAggregateWhen rest

def optionAggregate : Option Expr → Bool
  | none => false
  | some e => e.hasAggregate

end

mutual

def Expr.eval (d : Database) (s : Scope) : Expr → Value
  | .column table name => s.column table name
  | .literal l => l.value
  -- what `count` counts
  | .star => .num 1
  | .arith op left right => d.primitives.arith op (left.eval d s) (right.eval d s)
  | .modulo left right => d.primitives.modulo (left.eval d s) (right.eval d s)
  | .compare op left right => .ofTruth (d.primitives.holds op (left.eval d s) (right.eval d s))
  | .and left right => .ofTruth (allTrue [d.primitives.truth (left.eval d s), d.primitives.truth (right.eval d s)])
  | .or left right => .ofTruth (anyTrue [d.primitives.truth (left.eval d s), d.primitives.truth (right.eval d s)])
  | .not arg => .ofTruth (notTrue (d.primitives.truth (arg.eval d s)))
  | .neg arg => d.primitives.arith .sub (.num 0) (arg.eval d s)
  | .isNull arg negated => .ofTruth (some ((arg.eval d s).isNull != negated))
  | .inList arg items negated =>
    let found := anyTrue ((evalAll d s items).map (d.primitives.holds .eq (arg.eval d s)))
    .ofTruth (if negated then notTrue found else found)
  | .between arg low high =>
    .ofTruth (allTrue [d.primitives.holds .ge (arg.eval d s) (low.eval d s),
      d.primitives.holds .le (arg.eval d s) (high.eval d s)])
  | .cast arg type => d.primitives.castTo type (arg.eval d s)
  | .case whens otherwise => (evalWhens d s whens).getD (evalElse d s otherwise)
  | .call name args =>
    if isAggregateName name then
      d.primitives.aggregate name (s.group.map fun row => (evalAll d (s.onRow row) args).headD .null)
    else if name = "coalesce" then .first (evalAll d s args)
    else d.primitives.call name (evalAll d s args)
  | .countDistinct arg => d.primitives.countDistinct (s.group.map fun row => arg.eval d (s.onRow row))
  | .select value table condition =>
    let rows := (d.rows table).filter fun row => isKept d ⟨table, d.rows table, some row⟩ condition
    if value.hasAggregate then value.eval d ⟨table, rows, rows.head?⟩
    else d.primitives.subquery (rows.map fun row => value.eval d ⟨table, rows, some row⟩)

def evalAll (d : Database) (s : Scope) : List Expr → List Value
  | [] => []
  | e :: rest => e.eval d s :: evalAll d s rest

def evalWhens (d : Database) (s : Scope) : List (Expr × Expr) → Option Value
  | [] => none
  | (condition, value) :: rest =>
    if d.primitives.truth (condition.eval d s) = some true then some (value.eval d s) else evalWhens d s rest

def evalElse (d : Database) (s : Scope) : Option Expr → Value
  | none => .null
  | some e => e.eval d s

def isKept (d : Database) (s : Scope) : Option Expr → Bool
  | none => true
  | some e => d.primitives.truth (e.eval d s) == some true

end

theorem evalAll_eq_map (d : Database) (s : Scope) (es : List Expr) : evalAll d s es = es.map (Expr.eval d s) := by
  induction es with
  | nil => rfl
  | cons e rest ih => rw [evalAll, ih, List.map_cons]

def Database.kept (d : Database) (table : String) (conditions : List Sql) : List Row :=
  (d.rows table).filter fun row =>
    conditions.all fun x => x.truthIn d.primitives ⟨d.rows table, d.rows table, some row⟩ == some true

/-- What trees see in a scope: totals range over the rows that satisfy the conditions. -/
def Database.frame (d : Database) (conditions : List Sql) (s : Scope) : Frame := ⟨d.kept s.table conditions, s.group, s.row⟩

structure Database.Conforms (schema : Table) (d : Database) : Prop where
  sqlite : d.primitives.IsSqlite
  rows : ∀ row ∈ d.rows schema.name, row.Conforms schema

structure Scope.Conforms (schema : Table) (s : Scope) : Prop where
  table : s.table = schema.name
  group : ∀ row ∈ s.group, row.Conforms schema
  row : ∀ row, s.row = some row → row.Conforms schema

structure Agrees (schema : Table) (conditions : List Sql) (x : Sql) (e : Expr) : Prop where
  aggregate : e.hasAggregate = x.hasAggregate
  value : ∀ d : Database, d.Conforms schema → ∀ s : Scope, s.Conforms schema →
    e.eval d s = x.eval d.primitives (d.frame conditions s)

end Reader

end ShelfQuery.Sql
