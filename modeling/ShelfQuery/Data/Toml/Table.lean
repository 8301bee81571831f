import ShelfQuery.Data.Toml.Scalar

set_option autoImplicit false

/-!
# TOML tables

How a table was defined, by a header, by braces, by the header of a table inside it or by a key with dots, decides
whether it may be filled again.
-/

namespace ShelfQuery.Data.Toml

inductive Origin where
  | defined | implied | dotted
  deriving DecidableEq

inductive Item where
  | value (v : Value)
  | table (origin : Origin) (entries : List (String × Item))
  | tables (elements : List (List (String × Item)))

abbrev Entries := List (String × Item)

def find? (key : String) (entries : Entries) : Option Item :=
  (entries.find? fun e => e.1 == key).map Prod.snd

def replace (key : String) (item : Item) (entries : Entries) : Entries :=
  entries.map fun e => if e.1 == key then (key, item) else e

/-- Applies `f` to the table at the end of a path. Tables that are missing on the way are made; of an
array of tables the last one is meant. A key with dots does not reach into a defined table. -/
def within (dots : Bool) (f : Origin → Entries → Option Entries) :
    (path : List String) → Origin → Entries → Option Entries
  | [], origin, entries => f origin entries
  | key :: path, _, entries =>
    match find? key entries with
    | none => do
      let made := if dots then Origin.dotted else .implied
      let inner ← within dots f path made []
      return entries ++ [(key, .table made inner)]
    | some (.value _) => none
    | some (.tables elements) => do
      let last ← elements.getLast?
      let inner ← within dots f path .defined last
      return replace key (.tables (elements.dropLast ++ [inner])) entries
    | some (.table origin inner) =>
      if dots && origin == .defined then none
      else do
        let inner ← within dots f path origin inner
        return replace key (.table origin inner) entries

def splitPath (path : List String) : Option (List String × String) := path.getLast?.map fun key => (path.dropLast, key)

def addValue (path : List String) (v : Value) (entries : Entries) : Option Entries := do
  let (parents, key) ← splitPath path
  let add (origin : Origin) (entries : Entries) : Option Entries :=
    if (origin == .dotted) == parents.isEmpty then none
    else if (find? key entries).isSome then none
    else some (entries ++ [(key, .value v)])
  within true add parents .defined entries

mutual

def Item.toValue : Item → Value
  | .value v => v
  | .table _ entries => .map (entriesToValues entries)
  | .tables elements => .list (elementsToValues elements)

def entriesToValues : Entries → List (Value × Value)
  | [] => []
  | (key, item) :: rest => (.text key, item.toValue) :: entriesToValues rest

def elementsToValues : List Entries → List Value
  | [] => []
  | entries :: rest => .map (entriesToValues entries) :: elementsToValues rest

end

def skipComment : List Char → Option (List Char)
  | '#' :: rest =>
    let rest := rest.dropWhile isPrintable
    if rest.isEmpty || (newline? rest).isSome then some rest else none
  | cs => some cs

def skipFiller : (fuel : Nat) → List Char → Option (List Char)
  | 0, _ => none
  | fuel + 1, cs => do
    let rest ← skipComment (skipSpace cs)
    match newline? rest with
    | some rest => skipFiller fuel rest
    | none => return rest

def nestingLimit : Nat := 80

mutual

def readValue : (fuel depth : Nat) → List Char → Option (Value × List Char)
  | 0, _, _ => none
  | fuel + 1, depth, '[' :: rest =>
    if nestingLimit ≤ depth then none
    else (readItems fuel (depth + 1) rest).map fun (items, rest) => (.list items, rest)
  | fuel + 1, depth, '\x7b' :: rest =>
    if nestingLimit ≤ depth then none
    else
      match skipSpace rest with
      | '\x7d' :: rest => some (.map [], rest)
      | rest => (readPairs fuel (depth + 1) [] rest).map fun (entries, rest) => (.map (entriesToValues entries), rest)
  | _ + 1, _, cs => readScalar cs

def readItems : (fuel depth : Nat) → List Char → Option (List Value × List Char)
  | 0, _, _ => none
  | fuel + 1, depth, cs => do
    match ← skipFiller (cs.length + 1) cs with
    | ']' :: rest => return ([], rest)
    | cs => do
      let (v, rest) ← readValue fuel depth cs
      match ← skipFiller (rest.length + 1) rest with
      | ',' :: rest => do
        let (more, rest) ← readItems fuel depth rest
        return (v :: more, rest)
      | ']' :: rest => return ([v], rest)
      | _ => none

def readPairs : (fuel depth : Nat) → Entries → List Char → Option (Entries × List Char)
  | 0, _, _, _ => none
  | fuel + 1, depth, entries, cs => do
    let (path, rest) ← readKey (cs.length + 1) cs
    match rest with
    | '=' :: rest => do
      let (v, rest) ← readValue fuel depth (skipSpace rest)
      let entries ← addValue path v entries
      match skipSpace rest with
      | ',' :: rest => readPairs fuel depth entries rest
      | '\x7d' :: rest => return (entries, rest)
      | _ => none
    | _ => none

end

structure Filling where
  root : Entries := []
  path : List String := []
  isElement : Bool := false
  current : Entries := []

def Filling.close (f : Filling) : Option Entries :=
  match splitPath f.path with
  | none => some f.current
  | some (parents, key) =>
    let put (_ : Origin) (entries : Entries) : Option Entries :=
      if f.isElement then
        match find? key entries with
        | none => some (entries ++ [(key, .tables [f.current])])
        | some (.tables elements) => some (replace key (.tables (elements ++ [f.current])) entries)
        | some _ => none
      else
        match find? key entries with
        | none => some (entries ++ [(key, .table .defined f.current)])
        | some _ => none
    within false put parents .defined f.root

/-- The entries a table already has, if it was only implied so far, and its parent without it. -/
def takeImplied (key : String) (entries : Entries) : Option (Entries × Entries) :=
  match find? key entries with
  | none => some ([], entries)
  | some (.table .implied inner) => some (inner, entries.filter fun e => e.1 != key)
  | some _ => none

def inside? : (path : List String) → Entries → Option Entries
  | [], entries => some entries
  | key :: path, entries =>
    match find? key entries with
    | none => some []
    | some (.value _) => none
    | some (.tables elements) => do inside? path (← elements.getLast?)
    | some (.table _ inner) => inside? path inner

def Filling.openTable (f : Filling) (path : List String) : Option Filling := do
  let root ← f.close
  let (parents, key) ← splitPath path
  let (current, _) ← takeImplied key (← inside? parents root)
  let root ← within false (fun _ entries => (takeImplied key entries).map Prod.snd) parents .defined root
  return { root, path, current }

def Filling.openElement (f : Filling) (path : List String) : Option Filling := do
  let root ← f.close
  let (parents, key) ← splitPath path
  let reserve (_ : Origin) (entries : Entries) : Option Entries :=
    match find? key entries with
    | none => some (entries ++ [(key, .tables [])])
    | some (.tables _) => some entries
    | some _ => none
  let root ← within false reserve parents .defined root
  return { root, path, isElement := true }

def endLine (cs : List Char) : Option (List Char) := do
  let rest ← skipComment (skipSpace cs)
  match rest with
  | [] => some []
  | rest => newline? rest

def readHeader (closing : List Char) (cs : List Char) : Option (List String × List Char) := do
  let (path, rest) ← readKey (cs.length + 1) cs
  let rest ← Text.afterPrefix? closing rest
  return (path, ← endLine rest)

def readLine (f : Filling) (cs : List Char) : Option (Filling × List Char) :=
  match skipSpace cs with
  | '[' :: '[' :: rest => do
    let (path, rest) ← readHeader [']', ']'] rest
    return (← f.openElement path, rest)
  | '[' :: rest => do
    let (path, rest) ← readHeader [']'] rest
    return (← f.openTable path, rest)
  | cs =>
    match endLine cs with
    | some rest => some (f, rest)
    | none => do
      let (path, rest) ← readKey (cs.length + 1) cs
      match rest with
      | '=' :: rest => do
        let rest := skipSpace rest
        let (v, rest) ← readValue (2 * rest.length + 2) 0 rest
        let current ← addValue path v f.current
        return ({ f with current }, ← endLine rest)
      | _ => none

def readLines : (fuel : Nat) → Filling → List Char → Option Entries
  | _, f, [] => f.close
  | 0, _, _ => none
  | fuel + 1, f, cs => do
    let (f, rest) ← readLine f cs
    readLines fuel f rest

def entries? (text : String) : Option (List (String × Value)) := do
  let cs := match text.toList with
    | '\ufeff' :: rest => rest
    | cs => cs
  let entries ← readLines (cs.length + 1) {} cs
  return entries.map fun (key, item) => (key, item.toValue)

end ShelfQuery.Data.Toml
