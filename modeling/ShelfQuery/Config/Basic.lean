import ShelfQuery.Config.Variable
import ShelfQuery.Store.Settings

set_option autoImplicit false

namespace ShelfQuery.Config

open ShelfQuery.Data ShelfQuery.Files ShelfQuery.Schema ShelfQuery.Store

inductive ConfigError where
  | fileNotFound (path : String)
  | unsupportedFormat (path : String)
  | unreadable
  | folderNotFound
  | invalidValue (key reason : String)

def ConfigError.message : ConfigError → String
  | .fileNotFound path => "config file not found: " ++ path
  | .unsupportedFormat path => "unsupported config format: " ++ path ++ " (expected .yaml, .yml or .toml)"
  | .unreadable => "failed to load configuration: a file or a variable has an invalid value"
  | .folderNotFound => "no .recipe directory found"
  | .invalidValue key reason => "invalid configuration value for key '" ++ key ++ "': " ++ reason

structure DatabaseSection where
  url : String := ":memory:"
  dialect : Dialect := .sqlite
  debug : Bool := false

structure CacheSection where
  cacheQueries : Bool := false
  backend : String := "memory"
  expiration : Nat := 86400

end ShelfQuery.Config

namespace ShelfQuery

open Config Schema in
structure Config where
  database : DatabaseSection := {}
  cache : CacheSection := {}
  tables : List Table := []

end ShelfQuery

namespace ShelfQuery.Config

open ShelfQuery.Data ShelfQuery.Files ShelfQuery.Schema ShelfQuery.Store

def DatabaseSection.ofValue? (v : Value) : Option DatabaseSection := do
  let parts ← partsOf ["url", "dialect", "debug"] v
  return {
    url := ← orDefault ":memory:" Value.text? (part parts 0)
    dialect := ← orDefault .sqlite dialectOf? (part parts 1)
    debug := ← orDefault false Value.bool? (part parts 2) }

def CacheSection.ofValue? (v : Value) : Option CacheSection := do
  let parts ← partsOf ["cache_queries", "backend", "expiration_time"] v
  return {
    cacheQueries := ← orDefault false Value.bool? (part parts 0)
    backend := ← orDefault "memory" Value.text? (part parts 1)
    expiration := ← orDefault 86400 Value.word? (part parts 2) }

def ofValue? (v : Value) : Option Config := do
  let parts ← partsOf ["database", "cache", "tables"] v
  return {
    database := ← orDefault {} DatabaseSection.ofValue? (part parts 0)
    cache := ← orDefault {} CacheSection.ofValue? (part parts 1)
    tables := ← orDefault [] tablesOf? (part parts 2) }

def toJson (c : Config) : Json :=
  .obj
    [("database", .obj [("url", .str c.database.url), ("dialect", .str c.database.dialect.name),
        ("debug", .bool c.database.debug)]),
      ("cache", .obj [("cache_queries", .bool c.cache.cacheQueries), ("backend", .str c.cache.backend),
        ("expiration_time", .int c.cache.expiration)]),
      ("tables", .arr (c.tables.map tableJson))]

def layer (c : Config) : Value := Value.ofJson c.toJson

def settings (c : Config) : Settings where
  url := c.database.url
  dialect := c.database.dialect
  debug := c.database.debug
  cacheQueries := c.cache.cacheQueries
  cacheBackend := c.cache.backend
  expiration := c.cache.expiration
  tables := c.tables

def check (c : Config) : Except ConfigError Config :=
  if (Text.trim c.database.url.toList).isEmpty then .error (.invalidValue "database.url" "must not be empty")
  else if c.cache.backend ≠ "memory" then
    .error (.invalidValue "cache.backend" ("unknown backend '" ++ c.cache.backend ++ "'"))
  else .ok c

/-- The configuration of layers over the defaults; `none` stands for a layer that is not well formed. -/
def ofLayers (layers : List (Option Value)) : Except ConfigError Config :=
  match (layers.mapM id).bind fun layers => ofValue? (layers.foldl overlay ({} : Config).layer) with
  | some c => c.check
  | none => .error .unreadable

def fileLayer (files : FileTree) (path : String) : Except ConfigError (Option Value) :=
  match LayerFormat.ofPath? path with
  | none => .error (.unsupportedFormat path)
  | some format =>
    match files.read path with
    | .ok text => .ok (format.read? text)
    | .error _ => .ok none

def loadFile (files : FileTree) (env : List (String × String)) (path : String) : Except ConfigError Config :=
  if !files.isFile path then .error (.fileNotFound path)
  else do Config.ofLayers [← fileLayer files path, some (variableLayer env)]

def fileNames : List String := ["recipe.yaml", "recipe.yml", "recipe.toml"]

def loadFolder (files : FileTree) (env : List (String × String)) (folder : String) : Except ConfigError Config := do
  let paths := (fileNames.map (below folder)).filter files.isFile
  let layers ← paths.mapM (fileLayer files)
  Config.ofLayers (layers ++ [some (variableLayer env)])

def loadEnvironment (env : List (String × String)) : Except ConfigError Config :=
  Config.ofLayers [some (variableLayer env)]

def folderName : String := ".recipe"

def searchUp (files : FileTree) : (fuel : Nat) → Path → Option Path
  | 0, _ => none
  | fuel + 1, p =>
    if files.isFolderAt (p ++ [folderName]) then some (p ++ [folderName])
    else if p.isEmpty then none
    else searchUp files fuel p.dropLast

def findFolder (files : FileTree) (env : List (String × String)) (start : String) : Option String :=
  match (env.lookup "RECIPE_DIR").filter files.isFolder with
  | some folder => some folder
  | none => do
    let place ← files.resolve? start
    (searchUp files (place.length + 1) place).map Path.text

end ShelfQuery.Config
