import ShelfQuery.Data.Toml.Table
import ShelfQuery.Data.Yaml.Value
import ShelfQuery.Files.Tree

set_option autoImplicit false

namespace ShelfQuery.Config

open ShelfQuery.Data

def change (key : Value) (f : Option Value → Value) : List (Value × Value) → List (Value × Value)
  | [] => [(key, f none)]
  | (k, v) :: rest =>
    if k.text? = key.text? then (k, f (some v)) :: rest else (k, v) :: change key f rest

mutual

def settle : Value → Value
  | .list items => .list (settleItems items)
  | .map entries => .map (settleEntries [] entries)
  | v => v

def settleItems : List Value → List Value
  | [] => []
  | v :: rest => settle v :: settleItems rest

def settleEntries (done : List (Value × Value)) : List (Value × Value) → List (Value × Value)
  | [] => done
  | (key, v) :: rest => settleEntries (change key (fun _ => settle v) done) rest

end

mutual

def overlay : (base top : Value) → Value
  | base, .map entries =>
    match base with
    | .map under => .map (overlayEntries under entries)
    | _ => .map entries
  | _, v => v

def overlayEntries : (under : List (Value × Value)) → List (Value × Value) → List (Value × Value)
  | under, [] => under
  | under, (key, v) :: rest =>
    overlayEntries (change key (fun old => overlay (old.getD .null) v) under) rest

end

def nested : List String → Value → Value
  | [], v => v
  | key :: rest, v => .map [(.text key, nested rest v)]

def ofEntries (entries : List (String × Value)) : Value :=
  settle (.map (entries.map fun (key, v) => (.text key, v)))

inductive LayerFormat where
  | yaml | toml

def LayerFormat.ofPath? (path : String) : Option LayerFormat :=
  match (Files.extension? path).map Text.lower with
  | some "yaml" => some .yaml
  | some "yml" => some .yaml
  | some "toml" => some .toml
  | _ => none

def LayerFormat.read? (format : LayerFormat) (text : String) : Option Value :=
  match format with
  | .yaml => (Yaml.entries? .texts text).map ofEntries
  | .toml => (Toml.entries? text).map ofEntries

end ShelfQuery.Config
