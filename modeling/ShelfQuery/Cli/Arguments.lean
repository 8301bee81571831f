import ShelfQuery.Schema.DataType

set_option autoImplicit false

namespace ShelfQuery.Cli

open ShelfQuery.Schema

/-- Why arguments do not give a command. Asking for help or for the version ends the reading too. -/
inductive UsageError where
  | help
  | version (command : Option String)
  | misuse
  deriving DecidableEq

inductive Arity where
  | flag | single | many
  deriving DecidableEq

inductive ValueKind where
  | text | path | count | dialect
  deriving DecidableEq

/-- An option. One that is open takes the next argument as its value even if that starts with a
hyphen. -/
structure OptionSpec where
  name : String
  short : Option Char := none
  arity : Arity := .flag
  kind : ValueKind := .text
  isOpen : Bool := false

def sharedOptions : List OptionSpec :=
  [{ name := "config", arity := .single, kind := .path },
    { name := "db", arity := .single },
    { name := "dialect", arity := .single, kind := .dialect },
    { name := "json" },
    { name := "verbose", short := some 'v' },
    { name := "quiet", short := some 'q' },
    { name := "help", short := some 'h' },
    { name := "version", short := some 'V' }]

def shelfOptions : List OptionSpec :=
  [{ name := "shelf", arity := .single, kind := .path }, { name := "table", short := some 't', arity := .single }]

def recipeOptions : List OptionSpec :=
  shelfOptions ++
    [{ name := "dimension", short := some 'd', arity := .many },
      { name := "metric", short := some 'm', arity := .many },
      { name := "filter", short := some 'f', arity := .many },
      { name := "automatic-filters", short := some 'a', arity := .single },
      { name := "order-by", short := some 'o', arity := .many, isOpen := true },
      { name := "limit", arity := .single, kind := .count },
      { name := "offset", arity := .single, kind := .count }]

def runOptions : List OptionSpec := recipeOptions ++ [{ name := "csv" }, { name := "anonymize" }, { name := "count" }]

def parseOptions : List OptionSpec := [{ name := "forbid-aggregation" }, { name := "enforce-aggregation" }]

def count? (text : String) : Option Nat :=
  let digits := match text.toList with
    | '+' :: rest => rest
    | cs => cs
  (Text.digitsValue? digits).filter (· < Nat.pow 2 64)

def dialect? (text : String) : Option Dialect := (Dialect.parse text).toOption

def ValueKind.accepts : ValueKind → String → Bool
  | .text, _ => true
  | .path, s => s != ""
  | .count, s => (count? s).isSome
  | .dialect, s => (dialect? s).isSome

structure Given where
  options : List (String × String) := []
  others : List String := []

namespace Given

def has (g : Given) (name : String) : Bool := g.options.any fun o => o.1 == name

def values (g : Given) (name : String) : List String := (g.options.filter fun o => o.1 == name).map Prod.snd

def value? (g : Given) (name : String) : Option String := (g.values name).getLast?

end Given

def record (g : Given) (s : OptionSpec) (value : String) : Except UsageError Given :=
  if s.name = "help" then .error .help
  else if s.name = "version" then .error (.version none)
  else if s.arity ≠ .many ∧ g.has s.name then .error .misuse
  else if s.arity ≠ .flag ∧ !s.kind.accepts value then .error .misuse
  else .ok { g with options := g.options ++ [(s.name, value)] }

def isHyphened (arg : String) : Bool := arg.toList.head? == some '-' && arg != "-"

structure Pending where
  given : Given
  spec : Option OptionSpec

def readLong (specs : List OptionSpec) (g : Given) (body : List Char) : Except UsageError Pending :=
  let name := String.ofList (body.takeWhile (· ≠ '='))
  match specs.find? (fun s => s.name == name), body.dropWhile (· ≠ '=') with
  | none, _ => .error .misuse
  | some s, [] => if s.arity = .flag then (record g s "").map (⟨·, none⟩) else .ok ⟨g, some s⟩
  | some s, _ :: value => if s.arity = .flag then .error .misuse else (record g s (String.ofList value)).map (⟨·, none⟩)

def dropEquals : List Char → List Char
  | '=' :: rest => rest
  | cs => cs

def readShort (specs : List OptionSpec) (g : Given) : List Char → Except UsageError Pending
  | [] => .ok ⟨g, none⟩
  | c :: rest =>
    match specs.find? fun s => s.short == some c with
    | none => .error .misuse
    | some s =>
      if s.arity = .flag then do readShort specs (← record g s "") rest
      else if rest.isEmpty then .ok ⟨g, some s⟩
      else (record g s (String.ofList (dropEquals rest))).map (⟨·, none⟩)

def readOption (specs : List OptionSpec) (g : Given) (arg : String) : Except UsageError Pending :=
  match arg.toList with
  | '-' :: '-' :: body => readLong specs g body
  | _ :: body => readShort specs g body
  | [] => .error .misuse

def addOthers (slots : Nat) (g : Given) (args : List String) : Except UsageError Given :=
  if slots < g.others.length + args.length then .error .misuse else .ok { g with others := g.others ++ args }

/-- Reads the arguments of a command with `slots` places for arguments that are no options. Without
places it reads up to the first such argument. -/
def readArguments (specs : List OptionSpec) (slots : Option Nat) :
    Given → List String → Except UsageError (Given × List String)
  | g, [] => .ok (g, [])
  | g, arg :: rest =>
    if arg = "--" then do return (← addOthers (slots.getD 0) g rest, [])
    else if !isHyphened arg then
      match slots with
      | some n => do readArguments specs slots (← addOthers n g [arg]) rest
      | none => .ok (g, arg :: rest)
    else do
      let p ← readOption specs g arg
      match p.spec, rest with
      | none, rest => readArguments specs slots p.given rest
      | some _, [] => .error .misuse
      | some s, value :: rest =>
        if isHyphened value && !s.isOpen then .error .misuse
        else readArguments specs slots (← record p.given s value) rest

structure Shared where
  config : Option String := none
  db : Option String := none
  dialect : Option Dialect := none
  json : Bool := false
  verbose : Bool := false
  quiet : Bool := false

structure ShelfRequest where
  shelf : String
  table : String

structure RecipeRequest where
  source : ShelfRequest
  dimensions : List String
  metrics : List String
  filters : List String
  automatic : Option String
  orderBy : List String
  limit : Nat
  offset : Nat

inductive Aggregation where
  | free | forbidden | enforced

inductive Command where
  | parse (table expression : String) (aggregation : Aggregation)
  | reflect (table : String)
  | sql (recipe : RecipeRequest)
  | run (recipe : RecipeRequest) (csv anonymize count : Bool)
  | shelf (source : ShelfRequest)
  | completion (shell : String)
  | version

def required {α : Type} : Option α → Except UsageError α
  | some a => .ok a
  | none => .error .misuse

def countOf (g : Given) (name : String) : Nat := ((g.value? name).bind count?).getD 0

def sharedOf (g : Given) : Shared where
  config := g.value? "config"
  db := g.value? "db"
  dialect := (g.value? "dialect").bind dialect?
  json := g.has "json"
  verbose := g.has "verbose"
  quiet := g.has "quiet"

def Shared.under (before after : Shared) : Shared where
  config := after.config.or before.config
  db := after.db.or before.db
  dialect := after.dialect.or before.dialect
  json := after.json || before.json
  verbose := after.verbose || before.verbose
  quiet := after.quiet || before.quiet

def shelfRequest (g : Given) : Except UsageError ShelfRequest := do
  return ⟨← required (g.value? "shelf"), ← required (g.value? "table")⟩

def recipeRequest (g : Given) : Except UsageError RecipeRequest := do
  return {
    source := ← shelfRequest g
    dimensions := g.values "dimension"
    metrics := g.values "metric"
    filters := g.values "filter"
    automatic := g.value? "automatic-filters"
    orderBy := g.values "order-by"
    limit := countOf g "limit"
    offset := countOf g "offset" }

def aggregationOf (g : Given) : Except UsageError Aggregation :=
  match g.has "forbid-aggregation", g.has "enforce-aggregation" with
  | true, true => .error .misuse
  | true, false => .ok .forbidden
  | false, true => .ok .enforced
  | false, false => .ok .free

def shells : List String := ["bash", "elvish", "fish", "powershell", "zsh"]

def shapeOf? : String → Option (List OptionSpec × Nat)
  | "parse" => some (parseOptions, 2)
  | "reflect" => some ([], 1)
  | "sql" => some (recipeOptions, 0)
  | "run" => some (runOptions, 0)
  | "shelf" => some (shelfOptions, 0)
  | "completion" => some ([], 1)
  | "version" => some ([], 0)
  | _ => none

def commandOf (name : String) (g : Given) : Except UsageError Command :=
  match name, g.others with
  | "parse", [table, expression] => do return .parse table expression (← aggregationOf g)
  | "reflect", [table] => .ok (.reflect table)
  | "sql", [] => do return .sql (← recipeRequest g)
  | "run", [] => do return .run (← recipeRequest g) (g.has "csv") (g.has "anonymize") (g.has "count")
  | "shelf", [] => do return .shelf (← shelfRequest g)
  | "completion", [shell] => if shells.contains shell then .ok (.completion shell) else .error .misuse
  | "version", [] => .ok .version
  | _, _ => .error .misuse

def readCommand (args : List String) : Except UsageError (Shared × Command) := do
  let (before, rest) ← readArguments sharedOptions none {} args
  match rest with
  | [] => .error .help
  | "help" :: _ => .error .help
  | name :: rest =>
    let (options, slots) ← required (shapeOf? name)
    match readArguments (sharedOptions ++ options) (some slots) {} rest with
    | .error (.version _) => .error (.version (some name))
    | .error e => .error e
    | .ok (g, _) => return ((sharedOf before).under (sharedOf g), ← commandOf name g)

end ShelfQuery.Cli
