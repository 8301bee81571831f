import ShelfQuery.Rows.Cell
import ShelfQuery.Schema.Table

set_option autoImplicit false

namespace ShelfQuery.Engine

open ShelfQuery.Rows ShelfQuery.Schema

structure StoredColumn where
  name : String
  declared : String

structure StoredTable where
  name : String
  columns : List StoredColumn
  rows : List (List Cell) := []

/-- `none` is the affinity of an expression that is not read from a column, `raw` that of a column
that keeps every cell as it is. -/
inductive Affinity where
  | none | raw | text | numeric
  deriving DecidableEq

def Affinity.ofDeclared (declared : String) : Affinity :=
  let d := Text.lower declared
  if Text.contains d "int" then .numeric
  else if ["char", "clob", "text"].any (Text.contains d) then .text
  else if Text.contains d "blob" || d == "" then .raw
  else .numeric

def Affinity.shared : Affinity → Affinity → Affinity
  | .none, b => b
  | a, .none => a
  | .numeric, _ => .numeric
  | _, .numeric => .numeric
  | _, _ => .raw

def findTable? (tables : List StoredTable) (name : String) : Option StoredTable :=
  tables.find? fun t => Text.sameIgnoringCase t.name name

namespace StoredTable

def schema (t : StoredTable) (asked : String) : Table :=
  ⟨asked, t.columns.map fun c => ⟨c.name, DataType.ofDeclared c.declared⟩⟩

def position? (t : StoredTable) (column : String) : Option Nat :=
  t.columns.findIdx? fun c => Text.sameIgnoringCase c.name column

def affinity (t : StoredTable) (column : String) : Affinity :=
  match (t.position? column).bind fun i => t.columns[i]? with
  | some c => .ofDeclared c.declared
  | none => .none

def cell (t : StoredTable) (row : List Cell) (column : String) : Cell :=
  ((t.position? column).bind fun i => row[i]?).getD .null

end StoredTable

end ShelfQuery.Engine
