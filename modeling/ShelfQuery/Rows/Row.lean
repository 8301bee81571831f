import ShelfQuery.Rows.Cell

set_option autoImplicit false

namespace ShelfQuery.Rows

open ShelfQuery.Text ShelfQuery.Data

structure Row where
  fields : List String
  cells : List Cell

namespace Row

def position? (r : Row) (field : String) : Option Nat := r.fields.findIdx? (· == field)

def get? (r : Row) (field : String) : Option Cell := (r.position? field).bind fun i => r.cells[i]?

def set (r : Row) (field : String) (cell : Cell) : Row :=
  match r.position? field with
  | some i => { r with cells := r.cells.set i cell }
  | none => r

def extend (r : Row) (fields : List String) (extra : List Cell) : Row := ⟨fields, r.cells ++ extra⟩

def toJson (r : Row) : Json := .obj (r.fields.zip (r.cells.map Cell.toJson))

end Row

structure Dataset where
  headers : List String
  rows : List (List Cell)

namespace Dataset

def ofRows (rows : List Row) : Dataset :=
  ⟨(rows.head?.map Row.fields).getD [], rows.map Row.cells⟩

def needsQuotes (s : List Char) : Bool :=
  s.any fun c => c == ',' || c == '"' || c == '\n' || c == '\r'

/-- A field with a comma, a quote or a line end stands in quotes, its own quotes doubled. -/
def csvField (s : String) : String :=
  if needsQuotes s.toList then
    String.ofList ('"' :: s.toList.flatMap (fun c => if c = '"' then ['"', '"'] else [c]) ++ ['"'])
  else s

def csvLine (fields : List String) : String := join "," (fields.map csvField) ++ "\n"

def csv (d : Dataset) : String :=
  csvLine d.headers ++ String.join (d.rows.map fun row => csvLine (row.map Cell.display))

/-- One object for each row, members in key order; the last of equal labels wins. -/
def toJson (d : Dataset) : Json :=
  .arr (d.rows.map fun row => .obj (Json.sortMembers (d.headers.zip (row.map Cell.toJson))))

end Dataset

end ShelfQuery.Rows
