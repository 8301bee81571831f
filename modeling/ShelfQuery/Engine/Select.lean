import ShelfQuery.Engine.Evaluate
import ShelfQuery.Recipe.Query
import ShelfQuery.Sql.Grouping
import ShelfQuery.Sql.Names
import ShelfQuery.Store.ResultCache

set_option autoImplicit false

namespace ShelfQuery.Engine

open ShelfQuery.Rows ShelfQuery.Sql ShelfQuery.Recipe
open ShelfQuery.Store (Result)

def catalog (tables : List StoredTable) : Catalog where
  hasTable name := (findTable? tables name).isSome
  hasColumn table name := ((findTable? tables table).bind fun t => t.position? name).isSome

def isTrue (tables : List StoredTable) (f : Focus) (condition : Sql) : Bool :=
  truth (eval tables f condition) == some true

def filterRows (tables : List StoredTable) (t : StoredTable) (conditions : List Sql) : StoredTable :=
  { t with rows := t.rows.filter fun row => conditions.all (isTrue tables ((Focus.ofTable t).onRow row)) }

def sameKey (a b : List Cell) : Bool := a.length == b.length && (a.zip b).all fun (x, y) => sameCell x y

def addToGroup (key : List Cell) (row : List Cell) :
    List (List Cell × List (List Cell)) → List (List Cell × List (List Cell))
  | [] => [(key, [row])]
  | (k, rows) :: rest =>
    if sameKey k key then (k, rows ++ [row]) :: rest else (k, rows) :: addToGroup key row rest

def groupRows (key : List Cell → List Cell) (rows : List (List Cell)) : List (List Cell × List (List Cell)) :=
  rows.foldl (fun groups row => addToGroup (key row) row groups) []

def comesBefore : (directions : List Bool) → List Cell → List Cell → Bool
  | descending :: ds, x :: xs, y :: ys =>
    match compareCells x y with
    | .eq => comesBefore ds xs ys
    | .lt => !descending
    | .gt => descending
  | _, _, _ => true

def sortBy {α : Type} (directions : List Bool) (key : α → List Cell) (items : List α) : List α :=
  (items.map fun item => (key item, item)).mergeSort (fun a b => comesBefore directions a.1 b.1) |>.map Prod.snd

namespace Select

def asRead (q : Query) : Query :=
  { q with
    columns := q.columns.map fun (label, sql) => (label, sql.regrouped)
    filters := q.filters.map Sql.regrouped
    havings := q.havings.map Sql.regrouped }

def groupSql (q : Query) : List Sql := q.groupBy.filterMap q.column?

def isGrouped (q : Query) : Bool :=
  !q.groupBy.isEmpty || anyAggregate (q.columns.map Prod.snd) || anyAggregate q.havings

def isCount (n : Nat) : Bool := n < Nat.pow 2 63

def isAccepted (tables : List StoredTable) (q : Query) : Bool :=
  isBareName q.source && (findTable? tables q.source).isSome &&
    areKnown (catalog tables) [q.source] (q.columns.map Prod.snd ++ q.filters ++ q.havings) &&
    !anyAggregate q.filters && !anyAggregate (groupSql q) &&
    (q.havings.isEmpty || isGrouped q) &&
    isCount q.limit && isCount q.offset

def focuses (tables : List StoredTable) (t : StoredTable) (q : Query) : List Focus :=
  if q.groupBy.isEmpty then
    if isGrouped q then [.ofTable t] else t.rows.map fun row => ⟨t, [row], some row⟩
  else
    let keyOf (row : List Cell) : List Cell := evalAll tables ((Focus.ofTable t).onRow row) (groupSql q)
    let groups := sortBy (q.groupBy.map fun _ => false) Prod.fst (groupRows keyOf t.rows)
    groups.map fun (_, rows) => ⟨t, rows, rows.head?⟩

def sortCells (q : Query) (row : List Cell) : List Cell :=
  q.orderBy.map fun k =>
    ((q.columns.findIdx? fun c => Text.sameIgnoringCase c.1 k.label).bind fun i => row[i]?).getD .null

/-- Whether a sum overflows on the rows at hand, or on those of the total that it stands in. -/
def sumOverflows (tables : List StoredTable) (f : Focus) (sum : Option String × Sql) : Bool :=
  let f := match sum.1 with
    | some name => ((findTable? tables name).map Focus.ofTable).getD f
    | none => f
  (Sum.ofCells (f.rows.map fun row => eval tables (f.onRow row) sum.2)).hasOverflowed

def overflows (tables : List StoredTable) (f : Focus) (sql : Sql) : Bool :=
  (sql.sums none).any (sumOverflows tables f)

def groupOverflows (tables : List StoredTable) (f : Focus) (sql : Sql) : Bool :=
  ((sql.sums none).filter fun sum => sum.1.isNone).any (sumOverflows tables f)

/-- The rows of the query before a page is cut out; `none` if a sum overflows. The sums of all groups
are computed, but totals only where a row needs them. -/
def unpagedRows? (tables : List StoredTable) (source : StoredTable) (q : Query) : Option (List (List Cell)) :=
  let t := filterRows tables source q.filters
  let totals := tables.map fun other => if Text.sameIgnoringCase other.name t.name then t else other
  let focuses := focuses totals t q
  let kept := focuses.filter fun f => q.havings.all (isTrue totals f)
  let selected := q.columns.map Prod.snd
  if q.filters.any (overflows tables (.ofTable source)) ||
      focuses.any (fun f => q.havings.any (overflows totals f) || selected.any (groupOverflows totals f)) ||
      kept.any (fun f => selected.any (overflows totals f)) then none
  else
    let rows := kept.map fun f => evalAll totals f selected
    some (sortBy (q.orderBy.map SortKey.descending) (sortCells q) rows)

def page {α : Type} (limit offset : Nat) (rows : List α) : List α :=
  if limit = 0 then rows.drop offset else (rows.drop offset).take limit

def run? (tables : List StoredTable) (q : Query) : Option Result := do
  let q := asRead q
  let source ← (findTable? tables q.source).filter fun _ => isAccepted tables q
  let rows ← unpagedRows? tables source q
  return ⟨q.columns.map Prod.fst, page q.limit q.offset rows⟩

def count? (tables : List StoredTable) (q : Query) : Option Nat :=
  (run? tables { q with limit := 0, offset := 0 }).map fun r => r.rows.length

end Select

end ShelfQuery.Engine
