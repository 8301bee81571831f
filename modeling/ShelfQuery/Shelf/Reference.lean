import ShelfQuery.Shelf.Entry
import ShelfQuery.Schema.Table

set_option autoImplicit false

namespace ShelfQuery.Shelf

open ShelfQuery.Schema (isNameChar)

inductive ReferenceError where
  | unknown (name : String)
  | cycle (names : List String)
  deriving DecidableEq

def ReferenceError.message : ReferenceError → String
  | .unknown name => "@" ++ name ++ " doesn't exist on the shelf"
  | .cycle names => "Reference cycle: " ++ Text.join " -> " names

/-- Where a character stands: outside quotes, inside them, or inside and after a backslash. -/
inductive Quoting where
  | outside
  | inside (quote : Char)
  | escaped (quote : Char)

def Quoting.after (q : Quoting) (c : Char) : Quoting :=
  match q with
  | .outside => if c == '"' || c == '\'' then .inside c else .outside
  | .inside quote => if c == '\\' then .escaped quote else if c == quote then .outside else .inside quote
  | .escaped quote => .inside quote

def hasReferencesFrom (q : Quoting) : List Char → Bool
  | [] => false
  | c :: rest =>
    match q with
    | .outside => c == '@' || hasReferencesFrom (q.after c) rest
    | q => hasReferencesFrom (q.after c) rest

def hasReferences (text : String) : Bool := hasReferencesFrom .outside text.toList

inductive Segment where
  | char (c : Char)
  | reference (name : String)

/-- Cuts a text into characters and references. `skip` counts the characters of a name that has
just been read. -/
def segmentsFrom : (skip : Nat) → Quoting → List Char → List Segment
  | _, _, [] => []
  | skip + 1, q, _ :: rest => segmentsFrom skip q rest
  | 0, .outside, c :: rest =>
    let name := rest.takeWhile isNameChar
    if c == '@' && !name.isEmpty then .reference (String.ofList name) :: segmentsFrom name.length .outside rest
    else .char c :: segmentsFrom 0 (Quoting.outside.after c) rest
  | 0, q, c :: rest => .char c :: segmentsFrom 0 (q.after c) rest

def segments (text : String) : List Segment := segmentsFrom 0 .outside text.toList

def expandSegments (expand : String → Except ReferenceError (List Char)) :
    List Segment → Except ReferenceError (List Char)
  | [] => .ok []
  | .char c :: rest => do return c :: (← expandSegments expand rest)
  | .reference name :: rest => do
    let inner ← expand name
    let rest ← expandSegments expand rest
    return '(' :: inner ++ [')'] ++ rest

/-- Expands a text. `path` holds the names under expansion, the outermost first; a name that stands
on it closes a cycle. Each step lengthens the path by a new name of the definition, so the fuel
need not exceed the number of entries. -/
def expandWith (d : Definition) : (fuel : Nat) → (path : List String) → String → Except ReferenceError (List Char)
  | 0, path, _ => .error (.cycle path)
  | fuel + 1, path, text =>
    let expand (name : String) : Except ReferenceError (List Char) :=
      if path.contains name then .error (.cycle (path.dropWhile (· != name) ++ [name]))
      else
        match d.find? name with
        | none => .error (.unknown name)
        | some entry => expandWith d fuel (path ++ [name]) entry.text
    expandSegments expand (segments text)

def expandReferences (id text : String) (d : Definition) : Except ReferenceError String :=
  (expandWith d (d.length + 2) [id] text).map String.ofList

end ShelfQuery.Shelf
