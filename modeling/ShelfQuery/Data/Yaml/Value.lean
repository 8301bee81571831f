import ShelfQuery.Data.Value
import ShelfQuery.Data.Yaml.Node

set_option autoImplicit false

namespace ShelfQuery.Data.Yaml

open ShelfQuery.Text

def isNull (s : String) : Bool := s == "" || s == "~" || s == "null" || s == "Null" || s == "NULL"

def bool? (s : String) : Option Bool :=
  if s == "true" || s == "True" || s == "TRUE" then some true
  else if s == "false" || s == "False" || s == "FALSE" then some false
  else none

def dropSign : List Char → List Char
  | '+' :: cs => cs
  | '-' :: cs => cs
  | cs => cs

def isPaddedDigits (cs : List Char) : Bool :=
  match dropSign cs with
  | '0' :: d :: rest => d.isDigit && rest.all Char.isDigit
  | _ => false

def digitIn? (radix : Nat) (c : Char) : Option Nat := (hexDigit? c).filter (· < radix)

def natIn? (radix : Nat) (cs : List Char) : Option Nat :=
  if cs.isEmpty then none
  else cs.foldl (fun n c => do return radix * (← n) + (← digitIn? radix c)) (some 0)

def magnitude? (cs : List Char) : Option Nat :=
  match cs with
  | '0' :: 'x' :: rest => natIn? 16 rest
  | '0' :: 'o' :: rest => natIn? 8 rest
  | '0' :: 'b' :: rest => natIn? 2 rest
  | cs => if isPaddedDigits cs then none else natIn? 10 cs

def integer? (cs : List Char) : Option Int :=
  match cs with
  | '-' :: rest => (magnitude? rest).map fun n => -(n : Int)
  | '+' :: rest => (magnitude? rest).map Int.ofNat
  | cs => (magnitude? cs).map Int.ofNat

/-- Integers of 64 bits, the negative ones signed; longer ones of up to 128 bits are refused. -/
inductive IntegerReading where
  | fits (n : Int)
  | refused
  | none

def readInteger (cs : List Char) : IntegerReading :=
  match integer? cs with
  | some n =>
    if -(Int.pow 2 63) ≤ n ∧ n < Int.pow 2 64 then .fits n
    else if -(Int.pow 2 127) ≤ n ∧ n < Int.pow 2 128 then .refused
    else .none
  | none => .none

def isInfinity (cs : List Char) : Bool :=
  let s := String.ofList cs
  s == ".inf" || s == ".Inf" || s == ".INF"

def isNotANumber (cs : List Char) : Bool :=
  let s := String.ofList cs
  s == ".nan" || s == ".NaN" || s == ".NAN"

def startsSigned : List Char → Bool
  | '+' :: _ => true
  | '-' :: _ => true
  | _ => false

def float? (cs : List Char) : Option Float :=
  let unsigned := match cs with
    | '+' :: rest => rest
    | cs => cs
  if cs.head? == some '+' && startsSigned unsigned then none
  else if isInfinity unsigned then some (Number.infinity false)
  else if cs.head? == some '-' && isInfinity (cs.drop 1) then some (Number.infinity true)
  else if isNotANumber cs then some Number.notANumber
  else (Number.parse? (String.ofList unsigned)).filter Number.Binary64.isFinite

def plainValue (s : String) : Option Value :=
  if isNull s then some .null
  else
    match bool? s with
    | some b => some (.bool b)
    | none =>
      match readInteger s.toList with
      | .fits n => some (.int n)
      | .refused => none
      | .none =>
        if isPaddedDigits s.toList then some (.text s)
        else
          match float? s.toList with
          | some x => some (.float x)
          | none => some (.text s)

def isOwnTag (tag : Option String) : Bool := (tag.bind fun t => t.toList.head?) == some '!'

def scalarValue (tag : Option String) (s : String) (plain : Bool) : Option Value :=
  match tag with
  | none => if plain then plainValue s else some (.text s)
  | some "tag:yaml.org,2002:bool" => (bool? s).map .bool
  | some "tag:yaml.org,2002:int" =>
    match readInteger s.toList with
    | .fits n => some (.int n)
    | _ => none
  | some "tag:yaml.org,2002:float" => (float? s.toList).map .float
  | some "tag:yaml.org,2002:null" => if isNull s && s != "" then some .null else none
  | tag => if isOwnTag tag then none else some (.text s)

def Document.find? (d : Document) (number : Nat) : Option Node :=
  let found := d.anchored.filter fun a => a.number == number
  (found.find? fun a => found.all fun b => b.order ≤ a.order).map Anchored.node

def Document.follow (d : Document) : Node → Option Node
  | .alias number => d.find? number
  | node => some node

def Document.text? (d : Document) (node : Node) : Option String :=
  match d.follow node with
  | some (.scalar _ s _) => some s
  | _ => none

/-- How keys are read: as texts whatever they look like, or as values of their own. -/
inductive Keys where
  | texts | values
  deriving DecidableEq

def depthLimit : Nat := 128

def Document.entry? (d : Document) (keys : Keys) (value? : Node → Option Value) (entry : Node × Node) :
    Option (Value × Value) := do
  let key ← if keys = .texts then (d.text? entry.1).map Value.text else value? entry.1
  let value ← value? entry.2
  return (key, value)

def Document.value? (d : Document) (keys : Keys) : (depth : Nat) → Node → Option Value
  | 0, node =>
    match d.follow node with
    | some (.scalar tag s plain) => scalarValue tag s plain
    | _ => none
  | depth + 1, node =>
    match d.follow node with
    | some (.scalar tag s plain) => scalarValue tag s plain
    | some (.sequence tag items) =>
      if isOwnTag tag then none else (items.mapM (d.value? keys depth)).map .list
    | some (.mapping tag entries) =>
      if isOwnTag tag then none else (entries.mapM (d.entry? keys (d.value? keys depth))).map .map
    | _ => none

/-- The entries of the mapping in a text, its own keys as texts. An empty document has none. -/
def entries? (keys : Keys) (text : String) : Option (List (String × Value)) := do
  let d ← Document.parse? text
  match d.root with
  | none => some []
  | some (.scalar _ "" true) => some []
  | some (.mapping _ entries) =>
    entries.mapM fun (key, value) => do
      let key ← d.text? key
      let value ← d.value? keys (depthLimit - 1) value
      return (key, value)
  | _ => none

end ShelfQuery.Data.Yaml
