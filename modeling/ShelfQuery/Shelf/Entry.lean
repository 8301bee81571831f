import ShelfQuery.Data.Record
import ShelfQuery.Data.Toml.Table
import ShelfQuery.Data.Yaml.Value

set_option autoImplicit false

namespace ShelfQuery.Shelf

open ShelfQuery.Data

inductive Kind where
  | dimension | metric | filter | having
  deriving DecidableEq

namespace Kind

def name : Kind → String
  | .dimension => "dimension"
  | .metric => "metric"
  | .filter => "filter"
  | .having => "having"

def all : List Kind := [.dimension, .metric, .filter, .having]

def isSelectable : Kind → Bool
  | .dimension => true
  | .metric => true
  | _ => false

end Kind

inductive SortOrder where
  | ascending | descending
  deriving DecidableEq

namespace SortOrder

def name : SortOrder → String
  | .ascending => "asc"
  | .descending => "desc"

def all : List SortOrder := [.ascending, .descending]

end SortOrder

structure QuickSelect where
  name : String
  condition : String
  deriving DecidableEq

structure Spec where
  kind : Option Kind := none
  field : String
  idField : Option String := none
  orderByField : Option String := none
  ordering : SortOrder := .ascending
  format : Option String := none
  quickSelects : List QuickSelect := []
  anonymize : Bool := false
  singular : Option String := none
  plural : Option String := none
  description : Option String := none
  deriving DecidableEq

inductive Entry where
  | field (text : String)
  | spec (spec : Spec)
  deriving DecidableEq

def Entry.toSpec : Entry → Spec
  | .field text => { field := text }
  | .spec s => s

def Entry.text : Entry → String
  | .field text => text
  | .spec s => s.field

def Entry.kind? : Entry → Option Kind
  | .field _ => none
  | .spec s => s.kind

def optionalText? : Value → Option (Option String)
  | .null => some none
  | .text s => some (some s)
  | _ => none

/-- A word that stands alone, or as the only key of a map with nothing under it. A key may also be
the number of the word. -/
def wordAmong? {α : Type} (name : α → String) (all : List α) (v : Value) : Option α :=
  match v with
  | .text s => all.find? fun a => name a == s
  | .map [(.text s, .null)] => all.find? fun a => name a == s
  | .map [(.int n, .null)] => if 0 ≤ n then all[n.toNat]? else none
  | _ => none

def QuickSelect.ofValue? (v : Value) : Option QuickSelect := do
  let parts ← partsOf ["name", "condition"] v
  return { name := ← (← part parts 0).text?, condition := ← (← part parts 1).text? }

def quickSelectsOf? : Value → Option (List QuickSelect)
  | .list items => items.mapM QuickSelect.ofValue?
  | _ => none

def kindOf? : Value → Option (Option Kind)
  | .null => some none
  | v => (wordAmong? Kind.name Kind.all v).map some

def Spec.partNames : List String :=
  ["kind", "field", "id_field", "order_by_field", "ordering", "format", "quickselects", "anonymize", "singular",
    "plural", "description"]

def Spec.ofValue? (v : Value) : Option Spec := do
  let parts ← partsOf Spec.partNames v
  return {
    kind := ← orDefault none kindOf? (part parts 0)
    field := ← (← part parts 1).text?
    idField := ← orDefault none optionalText? (part parts 2)
    orderByField := ← orDefault none optionalText? (part parts 3)
    ordering := ← orDefault .ascending (wordAmong? SortOrder.name SortOrder.all) (part parts 4)
    format := ← orDefault none optionalText? (part parts 5)
    quickSelects := ← orDefault [] quickSelectsOf? (part parts 6)
    anonymize := ← orDefault false Value.bool? (part parts 7)
    singular := ← orDefault none optionalText? (part parts 8)
    plural := ← orDefault none optionalText? (part parts 9)
    description := ← orDefault none optionalText? (part parts 10) }

def Entry.ofValue? : Value → Option Entry
  | .text s => some (.field s)
  | v => (Spec.ofValue? v).map .spec

abbrev Definition := List (String × Entry)

namespace Definition

def find? (d : Definition) (id : String) : Option Entry := (List.find? (fun e => e.1 == id) d).map Prod.snd

def ofEntries? : (seen : Definition) → List (String × Value) → Option Definition
  | seen, [] => some seen
  | seen, (id, v) :: rest => do
    let entry ← Entry.ofValue? v
    if (seen.find? id).isSome then none else ofEntries? (seen ++ [(id, entry)]) rest

def ofJson? (text : String) : Option Definition := do
  match ← Json.parse? text with
  | .obj members => ofEntries? [] (members.map fun (key, v) => (key, Value.ofJson v))
  | _ => none

def ofYaml? (text : String) : Option Definition :=
  if (Text.trim text.toList).isEmpty then some []
  else do ofEntries? [] (← Data.Yaml.entries? .values text)

def ofToml? (text : String) : Option Definition := do ofEntries? [] (← Data.Toml.entries? text)

end Definition

end ShelfQuery.Shelf
