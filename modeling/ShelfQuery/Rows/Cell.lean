import ShelfQuery.Data.Json

set_option autoImplicit false

namespace ShelfQuery.Rows

open ShelfQuery.Text ShelfQuery.Data

inductive Cell where
  | null
  | int (value : Int)
  | real (value : Float)
  | text (value : String)

namespace Cell

def isNull : Cell → Bool
  | .null => true
  | _ => false

def display : Cell → String
  | .null => ""
  | .int n => toString n
  | .real x => Number.plain x
  | .text s => s

def text? : Cell → Option String
  | .text s => some s
  | _ => none

def number? : Cell → Option Float
  | .null => none
  | .int n => some (Number.Binary64.ofInt n)
  | .real x => some x
  | .text s => Number.parse? (trimString s)

def toJson : Cell → Json
  | .null => .null
  | .int n => .int n
  | .real x => .float x
  | .text s => .str s

end Cell

end ShelfQuery.Rows
