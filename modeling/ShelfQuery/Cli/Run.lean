import ShelfQuery.Cli.Arguments
import ShelfQuery.Cli.Output
import ShelfQuery.Config.Basic
import ShelfQuery.Recipe.Run
import ShelfQuery.Shelf.File

set_option autoImplicit false

namespace ShelfQuery.Cli

open ShelfQuery.Calendar ShelfQuery.Config ShelfQuery.Data ShelfQuery.Engine ShelfQuery.Expression
open ShelfQuery.Files ShelfQuery.Recipe ShelfQuery.Rows ShelfQuery.Shelf ShelfQuery.Sql ShelfQuery.Store

structure World where
  files : FileTree
  env : List (String × String)
  databases : List (Path × List StoredTable)
  now : DateTime
  system : String
  architecture : String

structure Outcome where
  code : Nat
  stdout : String := ""
  stderr : String := ""

/-- What went wrong, from the outside in. -/
abbrev Failure := List String

def programVersion : String := "0.1.0"

def causes (e : RecipeError) : Failure :=
  match e with
  | .badIngredient _ cause => [e.message, cause.message]
  | .noText detail => [e.message, detail]
  | .storage (.refused detail) => [e.message, detail]
  | e => [e.message]

def doing {α : Type} (what : String) : Except Failure α → Except Failure α
  | .ok a => .ok a
  | .error causes => .error (what :: causes)

def World.config (w : World) (s : Shared) : Except Failure Config := do
  let c ← match s.config with
    | some path =>
      doing ("failed to load config " ++ path) ((loadFile w.files w.env path).mapError fun e => [e.message])
    | none =>
      match findFolder w.files w.env "." with
      | some folder =>
        doing ("failed to load config from " ++ folder)
          ((loadFolder w.files w.env folder).mapError fun e => [e.message])
      | none => doing "failed to load config" ((loadEnvironment w.env).mapError fun e => [e.message])
  return { c with database := {
    c.database with url := s.db.getD c.database.url, dialect := s.dialect.getD c.database.dialect } }

def cannotOpen (path detail : String) : StoreError := .connection ("failed to open " ++ path ++ ": " ++ detail)

def folderOf (path : String) : String :=
  match Text.splitLast? ['/'] path.toList with
  | some ([], _) => "/"
  | some (folder, _) => String.ofList folder
  | none => "."

/-- The tables of a database file. A file that does not exist is an empty database, if there is a
folder for it. -/
def World.tables (w : World) : Option String → Except StoreError (List StoredTable)
  | none => .ok []
  | some path =>
    match w.files.resolve? path with
    | some place =>
      match w.databases.lookup place, w.files.at? place with
      | some tables, _ => .ok tables
      | none, some (.file "") => .ok []
      | none, some (.file _) => .error (cannotOpen path "file is not a database")
      | none, _ => .error (cannotOpen path ("unable to open database file: " ++ path))
    | none =>
      if w.files.isFolder (folderOf path) then .ok []
      else .error (cannotOpen path ("unable to open database file: " ++ path))

def World.database (w : World) (s : Shared) : Except Failure Handle := do
  let c ← w.config s
  doing ("failed to open database " ++ c.database.url)
    ((Handle.openWith c.settings w.tables).mapError fun e => [e.message])

def reflectTable (h : Handle) (table : String) : Except Failure Schema.Table :=
  doing ("failed to reflect table " ++ table)
    (match (h.reflect 0 table).1 with
      | .ok r => .ok r.schema
      | .error e => .error [e.message])

def World.kitchen (w : World) (s : Shared) (source : ShelfRequest) : Except Failure Kitchen := do
  let h ← w.database s
  match Shelf.load w.files source.shelf h 0 source.table w.now with
  | (.ok shelf, h) => return ⟨shelf, some h⟩
  | (.error e, _) => .error (("failed to load shelf " ++ source.shelf) :: causes e)

structure Printed where
  text : String
  failure : Option Failure := none

def prettyLine (v : Json) : String := v.pretty ++ "\n"

def World.coloured (w : World) : Bool := wantsColour w.env

def Aggregation.options : Aggregation → Options
  | .free => plainOptions
  | .forbidden => withoutAggregation
  | .enforced => withAggregation

def World.parse (w : World) (s : Shared) (table expression : String) (a : Aggregation) : Except Failure Printed := do
  let h ← w.database s
  let schema ← reflectTable h table
  let bench : Workbench := ⟨schema, h.settings.dialect, w.now⟩
  let f ← (bench.field expression a.options).mapError fun e => [e.message]
  let sql := f.render ⟨bench.dialect, []⟩
  if s.json then
    return ⟨prettyLine (.obj [("aggregate", .bool f.aggregate), ("datatype", .str f.datatype.name), ("sql", .str sql)]), none⟩
  else
    let note := "-- " ++ f.datatype.longName ++ (if f.aggregate then ", aggregate" else "")
    return ⟨unlines (sql :: if s.quiet then [] else [paint w.coloured mutedColour note]), none⟩

def World.reflect (w : World) (s : Shared) (table : String) : Except Failure Printed := do
  let h ← w.database s
  let schema ← reflectTable h table
  if s.json then return ⟨prettyLine (tableJson schema), none⟩
  else
    let rows := schema.columns.map fun c => [c.name, c.datatype.longName]
    return ⟨tableText w.coloured ["column", "datatype"] rows, none⟩

def RecipeRequest.recipe (r : RecipeRequest) : Except Failure Recipe := do
  let plain : Recipe :=
    { limit := r.limit, offset := r.offset }
  let recipe := (((plain.addDimensions r.dimensions).addMetrics r.metrics).addFilters r.filters).addOrder r.orderBy
  match r.automatic with
  | none => return recipe
  | some text =>
    match (Json.parse? text).map Json.canonical with
    | some (.obj members) => return recipe.addAutomatic members
    | _ => .error ["--automatic-filters must be a JSON object", "the text is not one"]

def World.sql (w : World) (s : Shared) (r : RecipeRequest) : Except Failure Printed := do
  let k ← w.kitchen s r.source
  let recipe ← r.recipe
  let q ← (recipe.query k.shelf).mapError causes
  if s.json then return ⟨prettyLine (.obj [("sql", .str q.text)]), none⟩ else return ⟨q.text ++ "\n", none⟩

def rowsNote (x : Served) (total : Option Int) : String :=
  "(" ++ toString x.rows.length ++ " rows" ++
    (match total with
      | some n => " of " ++ toString n
      | none => "") ++
    (if x.fromCache then ", cached" else "") ++ ")"

def World.run (w : World) (s : Shared) (r : RecipeRequest) (csv hide count : Bool) : Except Failure Printed := do
  let k ← w.kitchen s r.source
  let recipe := { ← r.recipe with anonymize := hide }
  let (served, k) := k.serve 0 recipe
  let served ← served.mapError causes
  let total ← if count then ((k.totalCount 0 recipe).1.mapError causes).map some else .ok none
  if s.json then
    let members : List (String × Json) :=
      [("from_cache", .bool served.fromCache), ("rows", .arr (served.rows.map Row.toJson))] ++
        (total.map fun n => ("total_count", Json.int n)).toList
    return ⟨prettyLine (Json.canonical (.obj members)), none⟩
  else if csv then return ⟨(Dataset.ofRows served.rows).csv, none⟩
  else
    let note := if s.quiet then [] else [paint w.coloured mutedColour (rowsNote served total)]
    return ⟨rowsText w.coloured served.rows ++ unlines note, none⟩

def slotView (dialect : Schema.Dialect) (slot : Slot) : Json :=
  .obj (("id", .str slot.id) ::
    match slot.outcome with
    | .ok i =>
      [("kind", .str i.kind.name), ("datatype", .str i.value.datatype.longName),
        ("sql", .str (i.value.render ⟨dialect, []⟩))]
    | .error e => [("error", .str e.message)])

def isFailed (slot : Slot) : Bool :=
  match slot.outcome with
  | .ok _ => false
  | .error _ => true

def slotCells (dialect : Schema.Dialect) (slot : Slot) : List String :=
  match slot.outcome with
  | .ok i => ["✓", slot.id, i.kind.name, i.value.datatype.longName, i.value.render ⟨dialect, []⟩]
  | .error e => ["✖", slot.id, "", "", (Text.lines e.message).headD ""]

def slotLines (coloured quiet : Bool) (dialect : Schema.Dialect) (slots : List Slot) : List String :=
  match tableLines ["", "id", "kind", "datatype", "sql"] (slots.map (slotCells dialect)) with
  | header :: rule :: rest =>
    (if quiet then [] else [header, rule]) ++
      (rest.zip slots).map fun (line, slot) =>
        paint coloured (if isFailed slot then failColour else passColour) line
  | lines => lines

def World.shelf (w : World) (s : Shared) (source : ShelfRequest) : Except Failure Printed := do
  let k ← w.kitchen s source
  let slots := k.shelf.slots
  let dialect := k.shelf.bench.dialect
  let text :=
    if s.json then prettyLine (.arr (slots.map (slotView dialect)))
    else unlines (slotLines w.coloured s.quiet dialect slots)
  let failed := (slots.filter isFailed).length
  let failure :=
    if failed = 0 then none
    else some [toString failed ++ " of " ++ toString slots.length ++ " ingredients are invalid"]
  return ⟨text, failure⟩

def World.version (w : World) (s : Shared) : Printed :=
  if s.json then
    ⟨prettyLine (.obj [("arch", .str w.architecture), ("os", .str w.system), ("version", .str programVersion)]), none⟩
  else ⟨"recipe version " ++ programVersion ++ " " ++ w.system ++ "/" ++ w.architecture ++ "\n", none⟩

def World.perform (w : World) (s : Shared) : Command → Except Failure Printed
  | .parse table expression a => w.parse s table expression a
  | .reflect table => w.reflect s table
  | .sql r => w.sql s r
  | .run r csv hide count => w.run s r csv hide count
  | .shelf source => w.shelf s source
  | .completion shell => .error ["no completions for " ++ shell]
  | .version => .ok (w.version s)

def failureText (json : Bool) (failure : Failure) : String :=
  let text := Text.join ": " failure
  if json then prettyLine (.obj [("error", .str text)]) else "Error: " ++ text ++ "\n"

def usageText : String :=
  unlines ["Build and run SQL queries from shelves of ingredients", "",
    "Usage: recipe [OPTIONS] [COMMAND]", "",
    "Commands: parse, reflect, sql, run, shelf, completion, version, help"]

def World.respond (w : World) (args : List String) : Outcome :=
  match readCommand args with
  | .error .help => ⟨0, usageText, ""⟩
  | .error (.version none) => ⟨0, "recipe " ++ programVersion ++ "\n", ""⟩
  | .error (.version (some command)) => ⟨0, "recipe-" ++ command ++ " " ++ programVersion ++ "\n", ""⟩
  | .error .misuse => ⟨2, "", usageText⟩
  | .ok (s, command) =>
    match w.perform s command with
    | .error failure => ⟨1, "", failureText s.json failure⟩
    | .ok printed =>
      match printed.failure with
      | some failure => ⟨1, printed.text, failureText s.json failure⟩
      | none => ⟨0, printed.text, ""⟩

end ShelfQuery.Cli
