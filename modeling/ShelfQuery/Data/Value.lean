import ShelfQuery.Data.Json

set_option autoImplicit false

namespace ShelfQuery.Data

inductive Value where
  | null
  | bool (b : Bool)
  | int (n : Int)
  | float (x : Float)
  | text (s : String)
  | list (items : List Value)
  | map (entries : List (Value × Value))

namespace Value

mutual

def ofJson : Json → Value
  | .null => .null
  | .bool b => .bool b
  | .int n => .int n
  | .float x => .float x
  | .str s => .text s
  | .arr items => .list (ofItems items)
  | .obj members => .map (ofMembers members)

def ofItems : List Json → List Value
  | [] => []
  | v :: rest => ofJson v :: ofItems rest

def ofMembers : List (String × Json) → List (Value × Value)
  | [] => []
  | (key, v) :: rest => (.text key, ofJson v) :: ofMembers rest

end

def text? : Value → Option String
  | .text s => some s
  | _ => none

def entries? : Value → Option (List (String × Value))
  | .map entries => entries.mapM fun (key, v) => key.text?.map fun key => (key, v)
  | _ => none

end Value

end ShelfQuery.Data
