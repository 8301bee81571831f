import ShelfQuery.Config.Layer

set_option autoImplicit false

namespace ShelfQuery.Config

open ShelfQuery.Data

def isAsciiBlank (c : Char) : Bool := c == ' ' || c == '\t' || c == '\n' || c == '\r' || c == '\x0c'

def skipBlanks (cs : List Char) : List Char := cs.dropWhile isAsciiBlank

def isSeparator (c : Char) : Bool := c == ',' || c == '\x7b' || c == '\x7d' || c == '[' || c == ']'

def isKeyChar (c : Char) : Bool := c.isAlphanum || c == '_' || c == '-'

def wordOf? (cs : List Char) : Option Int :=
  match cs with
  | '-' :: digits => ((Text.digitsValue? digits).map fun n => -(n : Int)).filter fun n => -(Int.pow 2 63) ≤ n
  | '+' :: digits => ((Text.digitsValue? digits).map Int.ofNat).filter fun n => n < Int.pow 2 64
  | digits => ((Text.digitsValue? digits).map Int.ofNat).filter fun n => n < Int.pow 2 64

def plainValue (cs : List Char) : Value :=
  let text := String.ofList cs
  match (if cs.contains '.' then Number.parse? text else none) with
  | some x => .float x
  | none =>
    match wordOf? cs with
    | some n => .int n
    | none => .text text

def escapedChar? : Char → Option Char
  | '"' => some '"'
  | '\\' => some '\\'
  | '/' => some '/'
  | 'b' => some '\x08'
  | 'f' => some '\x0c'
  | 'n' => some '\n'
  | 'r' => some '\r'
  | 't' => some '\t'
  | _ => none

def readQuoted : List Char → Option (List Char × List Char)
  | [] => none
  | '"' :: rest => some ([], rest)
  | '\\' :: c :: rest => do
    let (text, rest) ← readQuoted rest
    return ((← escapedChar? c) :: text, rest)
  | c :: rest => do
    let (text, rest) ← readQuoted rest
    return (c :: text, rest)

def readKey (cs : List Char) : Option (String × List Char) :=
  match cs with
  | '"' :: rest => (readQuoted rest).map fun (text, rest) => (String.ofList text, rest)
  | cs =>
    let name := cs.takeWhile isKeyChar
    if name.isEmpty then none else some (String.ofList name, cs.dropWhile isKeyChar)

mutual

def readValue : (fuel : Nat) → List Char → Option (Value × List Char)
  | 0, _ => none
  | fuel + 1, cs => do
    let cs := skipBlanks cs
    let (v, rest) ←
      match Text.afterPrefix? "true".toList cs, Text.afterPrefix? "false".toList cs, cs with
      | some rest, _, _ => some (.bool true, rest)
      | _, some rest, _ => some (.bool false, rest)
      | _, _, '\x7b' :: rest => (readEntries fuel rest).map fun (entries, rest) => (ofEntries entries, rest)
      | _, _, '[' :: rest => (readItems fuel rest).map fun (items, rest) => (.list items, rest)
      | _, _, '"' :: rest => (readQuoted rest).map fun (text, rest) => (.text (String.ofList text), rest)
      | _, _, '\'' :: c :: '\'' :: rest => some (.text (String.ofList [c]), rest)
      | _, _, '\'' :: _ => none
      | _, _, cs =>
        some (plainValue (Text.trim (cs.takeWhile fun c => !isSeparator c)), cs.dropWhile fun c => !isSeparator c)
    return (v, skipBlanks rest)

def readItems : (fuel : Nat) → List Char → Option (List Value × List Char)
  | 0, _ => none
  | _, ']' :: rest => some ([], rest)
  | fuel + 1, cs => do
    let (v, rest) ← readValue fuel cs
    match rest with
    | ',' :: rest =>
      let (items, rest) ← readItems fuel rest
      return (v :: items, rest)
    | ']' :: rest => return ([v], rest)
    | _ => none

def readEntries : (fuel : Nat) → List Char → Option (List (String × Value) × List Char)
  | 0, _ => none
  | _, '\x7d' :: rest => some ([], rest)
  | fuel + 1, cs => do
    let (key, rest) ← readKey (skipBlanks cs)
    let rest ← Text.afterPrefix? ['='] (skipBlanks rest)
    let (v, rest) ← readValue fuel rest
    match rest with
    | ',' :: rest =>
      let (entries, rest) ← readEntries fuel rest
      return ((key, v) :: entries, rest)
    | '\x7d' :: rest => return ([(key, v)], rest)
    | _ => none

end

/-- The value of a variable. What cannot be read to its end is a text. -/
def variableValue (text : String) : Value :=
  match readValue (2 * text.length + 2) text.toList with
  | some (v, []) => v
  | _ => .text text

/-- The keys that a name leads to, without the mark at its start. `RECIPE_DIR` is no setting. -/
def keysOf? (name : String) : Option (List String) := do
  let trimmed := Text.trim name.toList
  let rest ← Text.afterPrefix? "recipe_".toList (trimmed.map Text.lowerAscii)
  let rest := Text.trim rest
  let keys := (splitKeys [] rest).map String.ofList
  if keys == ["dir"] || keys.contains "" then none else some keys
where
  splitKeys (word : List Char) : List Char → List (List Char)
    | '_' :: '_' :: rest => word.reverse :: splitKeys [] rest
    | '.' :: rest => word.reverse :: splitKeys [] rest
    | c :: rest => splitKeys (c :: word) rest
    | [] => [word.reverse]

def variableLayer (env : List (String × String)) : Value :=
  env.foldl
    (fun layer (name, text) =>
      match keysOf? name with
      | some keys => overlay layer (nested keys (variableValue text))
      | none => layer)
    (.map [])

end ShelfQuery.Config
