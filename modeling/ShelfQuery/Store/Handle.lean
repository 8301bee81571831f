import ShelfQuery.Engine.Select
import ShelfQuery.Store.Settings
import ShelfQuery.Text.Quoted

set_option autoImplicit false

namespace ShelfQuery.Store

open ShelfQuery.Rows ShelfQuery.Schema ShelfQuery.Engine

/-- What a database does when it is asked for something: what it answers, or why it refuses, and the
tables it leaves. -/
abbrev Effect (α : Type) := List StoredTable → Except StoreError α × List StoredTable

inductive Statement where
  | select (query : Recipe.Query)
  | count (query : Recipe.Query)
  | everything (table : String)
  | echo (cells : List Cell)

namespace Statement

def echoColumns (cells : List Cell) : List Nat := (List.range cells.length).map (· + 1)

def echoLabel (i : Nat) : String := "p" ++ toString i

def text : Statement → String
  | .select query => query.text
  | .count query => query.countText
  | .everything table => "SELECT * FROM " ++ Dialect.sqlite.quote table
  | .echo cells =>
    "SELECT " ++ Text.join ", " ((echoColumns cells).map fun i => "?" ++ toString i ++ " AS " ++ echoLabel i)

def params : Statement → List Cell
  | .echo cells => cells
  | _ => []

def run? (tables : List StoredTable) : Statement → Option Result
  | .select query => Select.run? tables query
  | .count query => (Select.count? tables query).map fun n => ⟨["count(*)"], [[.int n]]⟩
  | .everything table => (findTable? tables table).map fun t => ⟨t.columns.map StoredColumn.name, t.rows⟩
  | .echo [] => none
  | .echo cells => some ⟨(echoColumns cells).map echoLabel, [cells]⟩

def effect (s : Statement) : Effect Result := fun tables =>
  match s.run? tables with
  | some result => (.ok result, tables)
  | none => (.error (.refused "the statement does not fit the tables"), tables)

end Statement

def handleLifetime : Nat := 600

/-- A schema that was looked up. Equal numbers mean the same look-up. -/
structure Reflection where
  number : Nat
  schema : Table

structure Handle where
  settings : Settings
  tables : List StoredTable
  reflections : Expiring String Reflection
  results : Option ResultCache
  nextNumber : Nat

namespace Handle

def cacheFor (s : Settings) : Except SettingsError (Option ResultCache) :=
  if !s.cacheQueries then .ok none
  else if s.cacheBackend = "memory" then .ok (some ⟨s.expiration, false, []⟩)
  else .error (.unknownBackend s.cacheBackend)

/-- Opens a database. `load` gives the tables of the file, or of an empty database. -/
def openWith (s : Settings) (load : Option String → Except StoreError (List StoredTable)) :
    Except StoreError Handle := do
  let path ← s.path.mapError .settings
  let tables ← load path
  let results ← (cacheFor s).mapError .settings
  return ⟨s, tables, ⟨handleLifetime, true, []⟩, results, 0⟩

def openEmpty (s : Settings) : Except StoreError Handle := openWith s fun _ => .ok []

def lookUp (h : Handle) (table : String) : Except StoreError Table :=
  let schema : Option Table :=
    (h.settings.declared? table).or ((findTable? h.tables table).map fun t => t.schema table)
  match schema.filter fun t => !t.columns.isEmpty with
  | some t => .ok t
  | none => .error (.noSuchTable table)

def reflect (h : Handle) (time : Nat) (table : String) : Except StoreError Reflection × Handle :=
  match h.reflections.get time table with
  | (some r, reflections) => (.ok r, { h with reflections })
  | (none, reflections) =>
    match h.lookUp table with
    | .error e => (.error e, { h with reflections })
    | .ok schema =>
      let r := ⟨h.nextNumber, schema⟩
      (.ok r, { h with reflections := reflections.insert time table r, nextNumber := h.nextNumber + 1 })

def invalidate (h : Handle) (table : String) : Handle :=
  { h with reflections := (h.reflections.remove table).2 }

def executeText (h : Handle) (time : Nat) (sql : String) (params : List Cell) (effect : Effect Result) :
    Except StoreError Execution × Handle :=
  let (answer, results, tables) := executeCached h.results time (cacheKey sql params) h.tables effect
  (answer, { h with results, tables })

def execute (h : Handle) (time : Nat) (s : Statement) : Except StoreError Execution × Handle :=
  h.executeText time s.text s.params s.effect

def executeBatch (h : Handle) (effect : Effect Unit) : Except StoreError Unit × Handle :=
  let (answer, tables) := effect h.tables
  (answer, { h with tables })

def change (h : Handle) (f : List StoredTable → List StoredTable) : Handle :=
  (h.executeBatch fun tables => (.ok (), f tables)).2

def create (h : Handle) (t : StoredTable) : Handle := h.change fun tables => tables ++ [t]

def insert (h : Handle) (table : String) (row : List Cell) : Handle :=
  h.change fun tables => tables.map fun t =>
    if Text.sameIgnoringCase t.name table then { t with rows := t.rows ++ [row] } else t

def drop (h : Handle) (table : String) : Handle :=
  h.change fun tables => tables.filter fun t => !Text.sameIgnoringCase t.name table

def dialectText : Dialect → String
  | .sqlite => "Sqlite"
  | .postgresql => "Postgresql"
  | .bigquery => "Bigquery"

def summary (h : Handle) : String :=
  "DbInfo \x7b key: " ++ Text.quoted h.settings.key ++ ", url: " ++ Text.quoted h.settings.url ++
    ", dialect: " ++ dialectText h.settings.dialect ++ ", cache_queries: " ++
    (if h.results.isSome then "true" else "false") ++ " \x7d"

end Handle

structure Registry where
  handles : Expiring String (Nat × Handle) := ⟨handleLifetime, true, []⟩
  nextNumber : Nat := 0

def Registry.obtain (r : Registry) (time : Nat) (s : Settings) : Except StoreError (Nat × Handle) × Registry :=
  match r.handles.getOrMake time s.key fun _ => (Handle.openEmpty s).map fun h => (r.nextNumber, h) with
  | (answer, _, handles) => (answer, ⟨handles, r.nextNumber + 1⟩)

end ShelfQuery.Store
