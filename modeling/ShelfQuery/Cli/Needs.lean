import ShelfQuery.Cli.Run

set_option autoImplicit false

namespace ShelfQuery.Cli

open ShelfQuery.Config ShelfQuery.Files

def variableNames : List String :=
  ["RECIPE_DIR", "RECIPE_DATABASE", "RECIPE_DATABASE__URL", "RECIPE_DATABASE__DIALECT", "RECIPE_DATABASE__DEBUG",
    "RECIPE_CACHE", "RECIPE_CACHE__CACHE_QUERIES", "RECIPE_CACHE__BACKEND", "RECIPE_CACHE__EXPIRATION_TIME",
    "RECIPE_TABLES", "NO_COLOR", "CLICOLOR_FORCE", "TERM"]

def folderPaths (folder : String) : List String := folder :: fileNames.map (below folder)

def folderCandidates : (fuel : Nat) → Path → List String
  | 0, _ => []
  | fuel + 1, p => Path.text (p ++ [folderName]) :: if p.isEmpty then [] else folderCandidates fuel p.dropLast

def Command.shelfPath? : Command → Option String
  | .sql r => some r.source.shelf
  | .run r _ _ _ => some r.source.shelf
  | .shelf source => some source.shelf
  | _ => none

def neededPaths (here : Path) (env : List (String × String)) (args : List String) : List String :=
  match readCommand args with
  | .error _ => []
  | .ok (s, command) =>
    s.config.toList ++ command.shelfPath?.toList ++
      ((env.lookup "RECIPE_DIR").toList ++ folderCandidates (here.length + 1) here).flatMap folderPaths

def World.databasePath? (w : World) (args : List String) : Option String :=
  match readCommand args with
  | .error _ => none
  | .ok (s, _) =>
    match w.config s with
    | .error _ => none
    | .ok c =>
      match c.settings.path with
      | .ok path => path
      | .error _ => none

def placeOf (here : Path) (text : String) : Path :=
  (parts text).foldl step (if isAbsolute text then [] else here)
where
  step (p : Path) (name : String) : Path :=
    if name = "" ∨ name = "." then p else if name = ".." then p.dropLast else p ++ [name]

end ShelfQuery.Cli
