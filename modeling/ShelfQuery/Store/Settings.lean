import ShelfQuery.Data.Record
import ShelfQuery.Digest.Sha256
import ShelfQuery.Schema.Table
import ShelfQuery.Store.Error

set_option autoImplicit false

namespace ShelfQuery.Store

open ShelfQuery.Data ShelfQuery.Schema

structure Settings where
  url : String
  dialect : Dialect := .sqlite
  debug : Bool := false
  cacheQueries : Bool := false
  cacheBackend : String := "memory"
  expiration : Nat := 86400
  tables : List Table := []
  deriving DecidableEq

def columnJson (c : Column) : Json := .obj [("name", .str c.name), ("datatype", .str c.datatype.name)]

def tableJson (t : Table) : Json := .obj [("name", .str t.name), ("columns", .arr (t.columns.map columnJson))]

def dialectOf? (v : Value) : Option Dialect := do
  match Dialect.parse (← v.text?) with
  | .ok d => some d
  | .error _ => none

def datatypeOf? (v : Value) : Option DataType := do
  match DataType.parse (← v.text?) with
  | .ok d => some d
  | .error _ => none

def columnOf? (v : Value) : Option Column := do
  let parts ← partsOf ["name", "datatype"] v
  return ⟨← (← part parts 0).text?, ← datatypeOf? (← part parts 1)⟩

def columnsOf? (v : Value) : Option (List Column) := do (← v.list?).mapM columnOf?

def tableOf? (v : Value) : Option Table := do
  let parts ← partsOf ["name", "columns"] v
  return ⟨← (← part parts 0).text?, ← orDefault [] columnsOf? (part parts 1)⟩

def tablesOf? (v : Value) : Option (List Table) := do (← v.list?).mapM tableOf?

namespace Settings

def memory : Settings := { url := ":memory:" }

def toJson (s : Settings) : Json :=
  .obj [("url", .str s.url), ("dialect", .str s.dialect.name), ("debug", .bool s.debug),
    ("cache_queries", .bool s.cacheQueries), ("cache_backend", .str s.cacheBackend),
    ("expiration_time", .int s.expiration), ("tables", .arr (s.tables.map tableJson))]

def ofValue? (v : Value) : Option Settings := do
  let parts ← partsOf
    ["url", "dialect", "debug", "cache_queries", "cache_backend", "expiration_time", "tables"] v
  return {
    url := ← (← part parts 0).text?
    dialect := ← orDefault .sqlite dialectOf? (part parts 1)
    debug := ← orDefault false Value.bool? (part parts 2)
    cacheQueries := ← orDefault false Value.bool? (part parts 3)
    cacheBackend := ← orDefault "memory" Value.text? (part parts 4)
    expiration := ← orDefault 86400 Value.word? (part parts 5)
    tables := ← orDefault [] tablesOf? (part parts 6) }

def key (s : Settings) : String := Digest.hexDigest (Digest.bytes s.toJson.compact)

def dropSlash : List Char → List Char
  | '/' :: rest => rest
  | cs => cs

def path (s : Settings) : Except SettingsError (Option String) :=
  let url := Text.trim s.url.toList
  let toPath (cs : List Char) : Option String :=
    let path := String.ofList cs
    if path = "" ∨ path = ":memory:" then none else some path
  match Text.afterPrefix? "sqlite://".toList url with
  | some rest => .ok (toPath (dropSlash rest))
  | none =>
    if Text.occursIn "://".toList url then .error (.unsupportedUrl (String.ofList url)) else .ok (toPath url)

def declared? (s : Settings) (table : String) : Option Table :=
  s.tables.find? fun t => Text.sameIgnoringCase t.name table

end Settings

end ShelfQuery.Store
