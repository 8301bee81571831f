import ShelfQuery.Files.Tree
import ShelfQuery.Shelf.Basic
import ShelfQuery.Store.Handle

set_option autoImplicit false

namespace ShelfQuery.Shelf

open ShelfQuery.Files ShelfQuery.Recipe ShelfQuery.Store ShelfQuery.Calendar

inductive ShelfFormat where
  | json | yaml | toml

def ShelfFormat.ofPath (path : String) : ShelfFormat :=
  match extension? path with
  | some "toml" => .toml
  | some "json" => .json
  | _ => .yaml

def Definition.read? (format : ShelfFormat) (text : String) : Option Definition :=
  match format with
  | .json => Definition.ofJson? text
  | .yaml => Definition.ofYaml? text
  | .toml => Definition.ofToml? text

def loadDefinition (files : FileTree) (path : String) : Except RecipeError Definition :=
  match files.read path with
  | .error e => .error (.noText e.message)
  | .ok text =>
    match Definition.read? (.ofPath path) text with
    | some d => .ok d
    | none => .error (.unreadable (path ++ ": not a shelf"))

def load (files : FileTree) (path : String) (h : Handle) (time : Nat) (table : String) (now : DateTime) :
    Except RecipeError Shelf × Handle :=
  match loadDefinition files path with
  | .error e => (.error e, h)
  | .ok definition =>
    match h.reflect time table with
    | (.error e, h) => (.error (.storage e), h)
    | (.ok r, h) => (.ok ⟨⟨r.schema, h.settings.dialect, now⟩, definition⟩, h)

def summary (s : Shelf) : String :=
  "Shelf \x7b table: " ++ Text.quoted s.table ++ ", ids: [" ++
    Text.join ", " (s.definition.map fun (id, _) => Text.quoted id) ++ "] \x7d"

end ShelfQuery.Shelf
