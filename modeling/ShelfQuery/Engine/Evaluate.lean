import ShelfQuery.Engine.Cells
import ShelfQuery.Sql.Aggregate

set_option autoImplicit false

namespace ShelfQuery.Engine

open ShelfQuery.Rows ShelfQuery.Sql

/-- The rows at hand. Without a row, columns are null. -/
structure Focus where
  table : StoredTable
  rows : List (List Cell)
  row : Option (List Cell)

def Focus.ofTable (t : StoredTable) : Focus := ⟨t, t.rows, t.rows.head?⟩

def Focus.onRow (f : Focus) (row : List Cell) : Focus := { f with row := some row }

def Focus.column (f : Focus) (name : String) : Cell :=
  match f.row with
  | some row => f.table.cell row name
  | none => .null

/-- A real that is written without a point is an integer, if it fits a word. -/
def realLiteral (x : Float) : Cell :=
  match (Number.literal x).toInt?.filter Expression.fitsWord with
  | some n => .int n
  | none => .real x

def literalCell : Literal → Cell
  | .null => .null
  | .bool b => ofBool b
  | .int n => .int n
  | .float x => realLiteral x
  | .text s => .text s
  | .date d => .text d.text
  | .datetime m => .text m.text

def castTo : CastType → Cell → Cell
  | .float, cell => asReal cell
  | .varchar, cell => asText cell
  | .integer, cell => asInteger cell

def affinityOf (tables : List StoredTable) (t : StoredTable) : Sql → Affinity
  | .column _ name => t.affinity name
  | .cast _ .varchar => .text
  | .cast _ _ => .numeric
  | .total table arg =>
    match findTable? tables table with
    | some t => affinityOf tables t arg
    | none => .none
  | _ => .none

def wholeOf (cell : Cell) : Int :=
  match asInteger cell with
  | .int n => n
  | _ => 0

/-- The part of a text from a place counted from 1, or from its end if the place is negative. Places
before the start count, but nothing stands there. -/
def slice (cs : List Char) (start : Int) (count : Option Int) : List Char :=
  let size : Int := cs.length
  let first := if start < 0 then size + start else if start = 0 then -1 else start - 1
  let (low, high) := match count with
    | none => (first, size)
    | some n => if n < 0 then (first + n, first) else (first, first + n)
  let low := (max low 0).toNat
  (cs.drop low).take ((max high 0).toNat - low)

def sliceOf (cells : List Cell) : Cell :=
  if cells.any Cell.isNull then .null
  else
    match cells with
    | [text, start] => .text (String.ofList (slice (textOf text) (wholeOf start) none))
    | [text, start, count] => .text (String.ofList (slice (textOf text) (wholeOf start) (some (wholeOf count))))
    | _ => .null
where
  textOf (cell : Cell) : List Char := (asText cell).display.toList

def lowerOf (cell : Cell) : Cell :=
  match asText cell with
  | .text s => .text (Text.lower s)
  | cell => cell

def call (name : String) (args : List Cell) : Cell :=
  match name with
  | "coalesce" => (args.find? fun c => !c.isNull).getD .null
  | "lower" => lowerOf (args.headD .null)
  | "substr" => sliceOf args
  | _ => .null

def dateIn? (s : String) : Option Calendar.Date :=
  match s.toList.drop 10 with
  | [] => Calendar.Date.ofPattern? Calendar.dashedDate (s.toList.take 10)
  | c :: _ => if c = ' ' ∨ c = 'T' then Calendar.Date.ofPattern? Calendar.dashedDate (s.toList.take 10) else none

def firstDay? (unit : TruncUnit) (d : Calendar.Date) : Option Calendar.Date :=
  match unit with
  | .year => Calendar.Date.of? d.year 1 1
  | .quarter => Calendar.Date.of? d.year ((d.month - 1) / 3 * 3 + 1) 1
  | .month => Calendar.Date.of? d.year d.month 1
  | .week => d.addDays? (-((d.toDays + 2) % 7))
  | .day => some d

def truncateCell (unit : TruncUnit) : Cell → Cell
  | .text s =>
    match (dateIn? s).bind (firstDay? unit) with
    | some d => .text d.text
    | none => .null
  | _ => .null

def isStar : List Sql → Bool
  | [.star] => true
  | _ => false

mutual

def eval (tables : List StoredTable) (f : Focus) : Sql → Cell
  | .column _ name => f.column name
  | .literal l => literalCell l
  | .star => .null
  | .arith op left right => calculate op (eval tables f left) (eval tables f right)
  | .compare op left right =>
    let affinity := (affinityOf tables f.table left).shared (affinityOf tables f.table right)
    ofTruth (holds op affinity (eval tables f left) (eval tables f right))
  | .and items => ofTruth (allTrue ((evalAll tables f items).map truth))
  | .or items => ofTruth (anyTrue ((evalAll tables f items).map truth))
  | .not arg => ofTruth (notTrue (truth (eval tables f arg)))
  | .neg arg => calculate .sub (.int 0) (eval tables f arg)
  | .isNull arg negated => ofBool ((eval tables f arg).isNull != negated)
  | .inList arg items negated =>
    let found := anyTrue ((evalAll tables f items).map (holds .eq (affinityOf tables f.table arg) (eval tables f arg)))
    ofTruth (if negated then notTrue found else found)
  | .between arg low high =>
    let cell := eval tables f arg
    let affinity := affinityOf tables f.table arg
    ofTruth (allTrue
      [holds .ge (affinity.shared (affinityOf tables f.table low)) cell (eval tables f low),
        holds .le (affinity.shared (affinityOf tables f.table high)) cell (eval tables f high)])
  | .cast arg type => castTo type (eval tables f arg)
  | .case whens otherwise =>
    match evalWhens tables f whens with
    | some cell => cell
    | none => evalElse tables f otherwise
  | .func name args =>
    if isAggregateName name then
      if isStar args then .int f.rows.length
      else aggregate name (f.rows.map fun row => (evalAll tables (f.onRow row) args).headD .null)
    else call name (evalAll tables f args)
  | .countDistinct arg =>
    .int (distinct ((f.rows.map fun row => eval tables (f.onRow row) arg).filter fun c => !c.isNull)).length
  | .dateTrunc unit arg _ => truncateCell unit (eval tables f arg)
  | .percentile _ _ => .null
  | .total table arg =>
    match findTable? tables table with
    | some t => if t.rows.isEmpty && !arg.hasAggregate then .null else eval tables (.ofTable t) arg
    | none => .null

def evalAll (tables : List StoredTable) (f : Focus) : List Sql → List Cell
  | [] => []
  | item :: rest => eval tables f item :: evalAll tables f rest

def evalWhens (tables : List StoredTable) (f : Focus) : List (Sql × Sql) → Option Cell
  | [] => none
  | (condition, value) :: rest =>
    if truth (eval tables f condition) = some true then some (eval tables f value) else evalWhens tables f rest

def evalElse (tables : List StoredTable) (f : Focus) : Option Sql → Cell
  | none => .null
  | some value => eval tables f value

end

end ShelfQuery.Engine
