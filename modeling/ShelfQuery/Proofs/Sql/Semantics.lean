import ShelfQuery.Engine.Cells
import ShelfQuery.Proofs.Number.Double
import ShelfQuery.Proofs.Sql.WellTyped
import ShelfQuery.Sql.Aggregate

set_option autoImplicit false

/-!
# What SQL expressions mean

Values are null, exact numbers and texts; truth values are the numbers 0 and 1. What databases do in their own ways is
left open in `Primitives`.
-/

namespace ShelfQuery.Sql

open ShelfQuery.Schema
open ShelfQuery.Engine (allTrue anyTrue notTrue)
open ShelfQuery.Expression (compareTexts holdsFor)

inductive Value where
  | null
  | num (value : ℚ)
  | text (value : String)
  deriving DecidableEq

namespace Value

def isNull : Value → Bool
  | .null => true
  | _ => false

def ofTruth : Option Bool → Value
  | none => .null
  | some b => .num (if b then 1 else 0)

def first (vs : List Value) : Value := (vs.find? fun v => !v.isNull).getD .null

end Value

def Literal.value : Literal → Value
  | .null => .null
  | .bool b => .ofTruth (some b)
  | .int n => .num n
  | .float x => .num (Number.Binary64.value x)
  | .text s => .text s
  | .date d => .text d.text
  | .datetime m => .text m.text

/-- What a database decides: operands of mixed kinds, the truth of a text, LIKE, casts, functions,
aggregates over the values of rows, and the value of a subquery among those of its rows. -/
structure Primitives where
  mixedArith : ArithOp → Value → Value → Value
  mixedOrder : ℚ → String → Ordering
  textTruth : String → Option Bool
  like : Value → Value → Bool
  cast : CastType → Value → Value
  call : String → List Value → Value
  dateTrunc : TruncUnit → Bool → Value → Value
  aggregate : String → List Value → Value
  countDistinct : List Value → Value
  percentile : Nat → List Value → Value
  subquery : List Value → Value

namespace Primitives

variable (p : Primitives)

def arith (op : ArithOp) (a b : Value) : Value :=
  match a, b with
  | .null, _ => .null
  | _, .null => .null
  | .num x, .num y =>
    match op with
    | .add => .num (x + y)
    | .sub => .num (x - y)
    | .mul => .num (x * y)
    | .div => if y = 0 then .null else .num (x / y)
    | .concat => p.mixedArith .concat (.num x) (.num y)
  | .text s, .text t => if op = .concat then .text (s ++ t) else p.mixedArith op (.text s) (.text t)
  | a, b => p.mixedArith op a b

def order : Value → Value → Ordering
  | .num x, .num y => compare x y
  | .text s, .text t => compareTexts s t
  | .num x, .text t => p.mixedOrder x t
  | .text s, .num y => (p.mixedOrder y s).swap
  | _, _ => .eq

def holds (op : CompareOp) (a b : Value) : Option Bool :=
  if a.isNull || b.isNull then none else if op = .like then some (p.like a b) else holdsFor op (p.order a b)

def truth : Value → Option Bool
  | .null => none
  | .num x => some (x != 0)
  | .text s => p.textTruth s

end Primitives

abbrev Row := String → Value

/-- `all` are the rows that totals range over, `group` those that aggregates range over. -/
structure Frame where
  all : List Row
  group : List Row
  row : Option Row

namespace Frame

def column (f : Frame) (name : String) : Value :=
  match f.row with
  | some row => row name
  | none => .null

def onRow (f : Frame) (row : Row) : Frame := { f with row := some row }

def total (f : Frame) : Frame := ⟨f.all, f.all, f.all.head?⟩

end Frame

mutual

def eval (p : Primitives) (f : Frame) : Sql → Value
  | .column _ name => f.column name
  | .literal l => l.value
  -- what `count` counts
  | .star => .num 1
  | .arith op left right => p.arith op (left.eval p f) (right.eval p f)
  | .compare op left right => .ofTruth (p.holds op (left.eval p f) (right.eval p f))
  | .and items => .ofTruth (allTrue ((evalAll p f items).map p.truth))
  | .or items => .ofTruth (anyTrue ((evalAll p f items).map p.truth))
  | .not arg => .ofTruth (notTrue (p.truth (arg.eval p f)))
  | .neg arg => p.arith .sub (.num 0) (arg.eval p f)
  | .isNull arg negated => .ofTruth (some ((arg.eval p f).isNull != negated))
  | .inList arg items negated =>
    let found := anyTrue ((evalAll p f items).map (p.holds .eq (arg.eval p f)))
    .ofTruth (if negated then notTrue found else found)
  | .between arg low high =>
    .ofTruth (allTrue [p.holds .ge (arg.eval p f) (low.eval p f), p.holds .le (arg.eval p f) (high.eval p f)])
  | .cast arg type => if (arg.eval p f).isNull then .null else p.cast type (arg.eval p f)
  | .case whens otherwise => (evalWhens p f whens).getD (evalElse p f otherwise)
  | .func name args =>
    if isAggregateName name then p.aggregate name (f.group.map fun row => (evalAll p (f.onRow row) args).headD .null)
    else if name = "coalesce" then .first (evalAll p f args)
    else p.call name (evalAll p f args)
  | .countDistinct arg => p.countDistinct (f.group.map fun row => arg.eval p (f.onRow row))
  | .dateTrunc unit arg datetime => p.dateTrunc unit datetime (arg.eval p f)
  | .percentile n arg => p.percentile n (f.group.map fun row => arg.eval p (f.onRow row))
  | .total _ arg =>
    if arg.hasAggregate then arg.eval p f.total else p.subquery (f.all.map fun row => arg.eval p (f.total.onRow row))

def evalAll (p : Primitives) (f : Frame) : List Sql → List Value
  | [] => []
  | item :: rest => item.eval p f :: evalAll p f rest

def evalWhens (p : Primitives) (f : Frame) : List (Sql × Sql) → Option Value
  | [] => none
  | (condition, value) :: rest =>
    if p.truth (condition.eval p f) = some true then some (value.eval p f) else evalWhens p f rest

def evalElse (p : Primitives) (f : Frame) : Option Sql → Value
  | none => .null
  | some value => value.eval p f

end

theorem evalAll_eq_map (p : Primitives) (f : Frame) (items : List Sql) : evalAll p f items = items.map (Sql.eval p f) := by
  induction items with
  | nil => rfl
  | cons x rest ih => rw [evalAll, ih, List.map_cons]

/-- Null belongs to every class. -/
inductive Value.HasClass : ValueClass → Value → Prop where
  | null {k : ValueClass} : HasClass k .null
  | bool (b : Bool) : HasClass .bool (.ofTruth (some b))
  | num (x : ℚ) : HasClass .num (.num x)
  | text (s : String) : HasClass .text (.text s)
  | any (v : Value) : HasClass .any v

/-- Cells are of the types of their columns. -/
def Row.Conforms (schema : Table) (row : Row) : Prop :=
  ∀ column ∈ schema.columns, column.datatype.isUsable = true → (row column.name).HasClass (.ofDataType column.datatype)

structure Frame.Conforms (schema : Table) (f : Frame) : Prop where
  all : ∀ row ∈ f.all, row.Conforms schema
  group : ∀ row ∈ f.group, row.Conforms schema
  row : ∀ row, f.row = some row → row.Conforms schema

/-- What is expected of a database: which kinds of values its functions give. -/
structure Primitives.Lawful (p : Primitives) : Prop where
  castFloat : ∀ v, (p.cast .float v).HasClass .num
  castInteger : ∀ v, (p.cast .integer v).HasClass .num
  castVarchar : ∀ v, (p.cast .varchar v).HasClass .text
  call : ∀ name ∈ ["substr", "lower"], ∀ vs, (p.call name vs).HasClass .text
  dateTrunc : ∀ unit datetime v, (p.dateTrunc unit datetime v).HasClass .text
  sum : ∀ name ∈ ["sum", "avg", "count"], ∀ vs, (p.aggregate name vs).HasClass .num
  extremum : ∀ name ∈ ["min", "max"], ∀ vs, p.aggregate name vs = .null ∨ p.aggregate name vs ∈ vs
  countDistinct : ∀ vs, (p.countDistinct vs).HasClass .num
  percentile : ∀ n vs, (p.percentile n vs).HasClass .num
  subquery : ∀ vs, p.subquery vs = .null ∨ p.subquery vs ∈ vs

namespace Value.HasClass

variable {k k' : ValueClass} {v : Value}

theorem mono (h : v.HasClass k) (hle : k.Le k') : v.HasClass k' := by
  cases hle with
  | null =>
    cases h
    exact .null
  | any => exact .any v
  | refl => exact h

theorem ofTruth (t : Option Bool) : (Value.ofTruth t).HasClass .bool := by
  cases t with
  | none => exact .null
  | some b => exact .bool b

theorem of_mem {vs : List Value} (h : ∀ v ∈ vs, v.HasClass k) (hv : v = .null ∨ v ∈ vs) : v.HasClass k := by
  rcases hv with rfl | hv
  · exact .null
  · exact h v hv

theorem first {vs : List Value} (h : ∀ v ∈ vs, v.HasClass k) : (Value.first vs).HasClass k := by
  refine of_mem h ?_
  unfold Value.first
  cases hfind : vs.find? fun v => !v.isNull with
  | none => exact .inl rfl
  | some v => exact .inr (List.mem_of_find?_eq_some hfind)

end Value.HasClass

theorem Literal.value_hasClass (l : Literal) : l.value.HasClass l.valueClass := by
  cases l with
  | null => exact .null
  | bool b => exact .bool b
  | int n => exact .num n
  | float x => exact .num _
  | text s => exact .text s
  | date d => exact .text _
  | datetime m => exact .text _

theorem Primitives.arith_number (p : Primitives) {op : ArithOp} (hop : op ≠ .concat) {a b : Value}
    (ha : a.HasClass .num) (hb : b.HasClass .num) : (p.arith op a b).HasClass .num := by
  cases ha with
  | null => exact .null
  | num x =>
    cases hb with
    | null => exact .null
    | num y =>
      cases op with
      | concat => exact absurd rfl hop
      | div =>
        simp only [Primitives.arith]
        split
        · exact .null
        · exact .num _
      | _ => exact .num _

theorem Primitives.arith_concat (p : Primitives) {a b : Value} (ha : a.HasClass .text) (hb : b.HasClass .text) :
    (p.arith .concat a b).HasClass .text := by
  cases ha with
  | null => exact .null
  | text s =>
    cases hb with
    | null => exact .null
    | text t => exact .text (s ++ t)

namespace Frame.Conforms

variable {schema : Table} {f : Frame}

theorem column (h : f.Conforms schema) {column : Column} (hcolumn : column ∈ schema.columns)
    (husable : column.datatype.isUsable = true) : (f.column column.name).HasClass (.ofDataType column.datatype) := by
  unfold Frame.column
  cases hrow : f.row with
  | none => exact .null
  | some row => exact h.row row hrow column hcolumn husable

theorem onRow (h : f.Conforms schema) {row : Row} (hrow : row.Conforms schema) : (f.onRow row).Conforms schema := by
  refine ⟨h.all, h.group, ?_⟩
  rintro row' ⟨⟩
  exact hrow

theorem total (h : f.Conforms schema) : f.total.Conforms schema :=
  ⟨h.all, h.all, fun row hrow => h.all row (List.mem_of_head? hrow)⟩

end Frame.Conforms

namespace WellTyped

variable {schema : Table} {p : Primitives}

theorem evalWhens_hasClass {k : ValueClass} {f : Frame} {whens : List (Sql × Sql)}
    (h : ∀ w ∈ whens, (w.2.eval p f).HasClass k) {v : Value} (hv : evalWhens p f whens = some v) : v.HasClass k := by
  induction whens with
  | nil => exact nomatch hv
  | cons w rest ih =>
    rw [evalWhens] at hv
    split at hv
    · cases hv
      exact h w (List.mem_cons_self ..)
    · exact ih (fun w hw => h w (List.mem_cons_of_mem _ hw)) hv

/-- The value of a well typed expression is null or of its class. -/
theorem eval_hasClass {k : ValueClass} {x : Sql} (h : WellTyped schema k x) (hp : p.Lawful) {f : Frame}
    (hf : f.Conforms schema) : (x.eval p f).HasClass k := by
  induction h generalizing f with
  | weaken hle _ ih => exact (ih hf).mono hle
  | column hcolumn _ husable => exact hf.column hcolumn husable
  | literal l => exact l.value_hasClass
  | number hop _ _ ihl ihr => exact p.arith_number hop (ihl hf) (ihr hf)
  | addNull _ _ ihl _ =>
    have hl := ihl hf
    rw [Sql.eval]
    generalize Sql.eval p f _ = v at hl
    cases hl
    exact .null
  | concat _ _ ihl ihr => exact p.arith_concat (ihl hf) (ihr hf)
  | neg _ _ ih => exact p.arith_number (by decide : ArithOp.sub ≠ .concat) (.num 0) (ih hf)
  | compare | and | or | not | isNull | inList | between => exact .ofTruth _
  | castFloat _ ih =>
    rw [Sql.eval]
    split
    · exact .null
    · exact hp.castFloat _
  | castText _ ih =>
    rw [Sql.eval]
    split
    · exact .null
    · exact hp.castVarchar _
  | castInt _ ih =>
    rw [Sql.eval]
    split
    · exact .null
    · exact hp.castInteger _
  | case _ _ _ _ _ ihvalue ihelse =>
    rw [Sql.eval]
    cases hwhens : evalWhens p f _ with
    | some v => exact evalWhens_hasClass (fun w hw => ihvalue w hw hf) hwhens
    | none =>
      rename_i otherwise _ _ _ _ _
      cases otherwise with
      | none => exact .null
      | some x => exact ihelse x rfl hf
  | coalesce _ _ ih =>
    rw [Sql.eval, if_neg (by decide), if_pos rfl, evalAll_eq_map]
    refine .first fun v hv => ?_
    obtain ⟨x, hx, rfl⟩ := List.mem_map.mp hv
    exact ih x hx hf
  | @scalar name args hname =>
    have hcall := hp.call name hname (evalAll p f args)
    simp only [List.mem_cons, List.not_mem_nil, or_false] at hname
    rcases hname with rfl | rfl <;> exact hcall
  | @sum name x hname =>
    have hmem : name ∈ ["sum", "avg", "count"] := List.mem_append_left ["count"] hname
    have hsum := hp.sum name hmem (f.group.map fun row => x.eval p (f.onRow row))
    simp only [List.mem_cons, List.not_mem_nil, or_false] at hname
    rcases hname with rfl | rfl <;> exact hsum
  | @extremum k name x hname _ ih =>
    have hvalues : ∀ v ∈ f.group.map (fun row => x.eval p (f.onRow row)), v.HasClass k := by
      intro v hv
      obtain ⟨row, hrow, rfl⟩ := List.mem_map.mp hv
      exact ih (hf.onRow (hf.group row hrow))
    have hextremum := hp.extremum name hname (f.group.map fun row => x.eval p (f.onRow row))
    simp only [List.mem_cons, List.not_mem_nil, or_false] at hname
    rcases hname with rfl | rfl <;> exact .of_mem hvalues hextremum
  | count => exact hp.sum "count" (by simp) _
  | countAll => exact hp.sum "count" (by simp) _
  | countDistinct => exact hp.countDistinct _
  | percentile => exact hp.percentile _ _
  | dateTrunc => exact hp.dateTrunc _ _ _
  | total _ ih =>
    rw [Sql.eval]
    split
    · exact ih hf.total
    · refine .of_mem (fun v hv => ?_) (hp.subquery _)
      obtain ⟨row, hrow, rfl⟩ := List.mem_map.mp hv
      exact ih (hf.total.onRow (hf.all row hrow))

end WellTyped

end ShelfQuery.Sql
