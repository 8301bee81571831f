import ShelfQuery.Digest.Sha256
import ShelfQuery.Rows.Row
import ShelfQuery.Shelf.Ingredient

set_option autoImplicit false

namespace ShelfQuery.Recipe

open ShelfQuery.Rows ShelfQuery.Shelf

/-- Eight hexadecimal digits of the digest of a value's text. Null stays. -/
def anonymized (cell : Cell) : Cell :=
  if cell.isNull then .null
  else .text (String.ofList ((Digest.hexDigest (Digest.bytes cell.display)).toList.take 8))

def anonymizeColumn (row : Row) (i : Ingredient) : Row :=
  match row.get? i.id with
  | some cell => row.set i.id (anonymized cell)
  | none => row

def formattedCell (row : Row) (i : Ingredient) : Cell :=
  match i.format, row.get? i.id with
  | some format, some cell => format.apply cell
  | _, _ => .null

def enchantRow (used : List Ingredient) (hide : Bool) (row : Row) : Row :=
  let row := if hide then (used.filter Ingredient.anonymize).foldl anonymizeColumn row else row
  let formatted := used.filter fun i => i.format.isSome
  if formatted.isEmpty then row
  else row.extend (row.fields ++ formatted.map fun i => i.id ++ "__formatted") (formatted.map (formattedCell row))

def enchant (used : List Ingredient) (hide : Bool) (columns : List String) (rows : List (List Cell)) : List Row :=
  rows.map fun cells => enchantRow used hide ⟨columns, cells⟩

end ShelfQuery.Recipe
