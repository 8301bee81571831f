import ShelfQuery.Number.Text

set_option autoImplicit false

namespace ShelfQuery.Data

open ShelfQuery.Text ShelfQuery.Number

inductive Json where
  | null
  | bool (value : Bool)
  | int (value : Int)
  | float (value : Float)
  | str (value : String)
  | arr (items : List Json)
  | obj (members : List (String × Json))

namespace Json

def str? : Json → Option String
  | .str s => some s
  | _ => none

def member? (key : String) : Json → Option Json
  | .obj members => (members.reverse.find? fun m => m.1 == key).map Prod.snd
  | _ => none

mutual

def depth : Json → Nat
  | .arr items => depthItems items + 1
  | .obj members => depthMembers members + 1
  | _ => 0

def depthItems : List Json → Nat
  | [] => 0
  | v :: rest => max v.depth (depthItems rest)

def depthMembers : List (String × Json) → Nat
  | [] => 0
  | (_, v) :: rest => max v.depth (depthMembers rest)

end

def hexDigit (n : Nat) : Char := if n < 10 then Char.ofNat (48 + n) else Char.ofNat (87 + n)

def escape (c : Char) : List Char :=
  if c = '"' then ['\\', '"']
  else if c = '\\' then ['\\', '\\']
  else if c = '\n' then ['\\', 'n']
  else if c = '\r' then ['\\', 'r']
  else if c = '\t' then ['\\', 't']
  else if c.toNat = 8 then ['\\', 'b']
  else if c.toNat = 12 then ['\\', 'f']
  else if c.toNat < 32 then ['\\', 'u', '0', '0', hexDigit (c.toNat / 16), hexDigit (c.toNat % 16)]
  else [c]

def quote (s : String) : String := String.ofList ('"' :: s.toList.flatMap escape ++ ['"'])

def openBrace : String := "\x7b"

def closeBrace : String := "\x7d"

mutual

def compact : Json → String
  | .null => "null"
  | .bool b => if b then "true" else "false"
  | .int n => toString n
  | .float x => Number.json x
  | .str s => quote s
  | .arr items => "[" ++ join "," (compactItems items) ++ "]"
  | .obj members => openBrace ++ join "," (compactMembers members) ++ closeBrace

def compactItems : List Json → List String
  | [] => []
  | v :: rest => compact v :: compactItems rest

def compactMembers : List (String × Json) → List String
  | [] => []
  | (k, v) :: rest => (quote k ++ ":" ++ compact v) :: compactMembers rest

end

def indent (depth : Nat) : String := "\n" ++ fill (2 * depth) ' '

mutual

def prettyAt (depth : Nat) : Json → String
  | .arr [] => "[]"
  | .obj [] => openBrace ++ closeBrace
  | .arr (v :: rest) =>
    "[" ++ join "," (prettyItems (depth + 1) (v :: rest)) ++ indent depth ++ "]"
  | .obj (m :: rest) =>
    openBrace ++ join "," (prettyMembers (depth + 1) (m :: rest)) ++ indent depth ++ closeBrace
  | .null => "null"
  | .bool b => if b then "true" else "false"
  | .int n => toString n
  | .float x => Number.json x
  | .str s => quote s

def prettyItems (depth : Nat) : List Json → List String
  | [] => []
  | v :: rest => (indent depth ++ prettyAt depth v) :: prettyItems depth rest

def prettyMembers (depth : Nat) : List (String × Json) → List String
  | [] => []
  | (k, v) :: rest => (indent depth ++ quote k ++ ": " ++ prettyAt depth v) :: prettyMembers depth rest

end

def pretty (v : Json) : String := prettyAt 0 v

def insertMember {α : Type} (key : String) (value : α) : List (String × α) → List (String × α)
  | [] => [(key, value)]
  | (k, v) :: rest =>
    if key == k then (key, value) :: rest
    else if before key.toList k.toList then (key, value) :: (k, v) :: rest
    else (k, v) :: insertMember key value rest

def sortMembers {α : Type} (members : List (String × α)) : List (String × α) :=
  members.foldl (fun sorted (k, v) => insertMember k v sorted) []

mutual

def canonical : Json → Json
  | .arr items => .arr (canonicalItems items)
  | .obj members => .obj (sortMembers (canonicalMembers members))
  | v => v

def canonicalItems : List Json → List Json
  | [] => []
  | v :: rest => canonical v :: canonicalItems rest

def canonicalMembers : List (String × Json) → List (String × Json)
  | [] => []
  | (k, v) :: rest => (k, canonical v) :: canonicalMembers rest

end

def largestWord : Nat := Nat.pow 2 64 - 1

/-- `significand * 10 ^ exponent`: the significand becomes a double and is multiplied or divided by
a power of ten, each step rounding. A result past the largest double is refused. -/
def scaleUp : (fuel : Nat) → (x : Float) → (exponent : Int) → Option Float
  | 0, x, _ => some x
  | fuel + 1, x, exponent =>
    if exponent.natAbs ≤ 308 then
      let power := Binary64.ofDecimal false 1 exponent.natAbs
      if 0 ≤ exponent then
        let y := x * power
        if Binary64.isFinite y then some y else none
      else some (x / power)
    else if x == 0 then some x
    else if 0 ≤ exponent then none
    else scaleUp fuel (x / Binary64.ofDecimal false 1 308) (exponent + 308)

def ofParts (negative : Bool) (significand : Nat) (exponent : Int) : Option Float :=
  (scaleUp 10 (Binary64.ofInt significand) (max exponent (-3000))).map fun x => if negative then -x else x

def takeFitting : (significand count : Nat) → List Char → Nat × Nat
  | significand, count, [] => (significand, count)
  | significand, count, c :: rest =>
    let next := significand * 10 + (c.toNat - '0'.toNat)
    if next ≤ largestWord then takeFitting next (count + 1) rest else (significand, count)

def readExponent (cs : List Char) : Option (Int × List Char) :=
  let (negative, cs) :=
    match cs with
    | '+' :: rest => (false, rest)
    | '-' :: rest => (true, rest)
    | rest => (false, rest)
  let (digits, rest) := takeDigits cs
  if digits.isEmpty then none
  else
    let n : Int := valueOf digits
    some (if negative then -n else n, rest)

def readNumber (negative : Bool) (cs : List Char) : Option (Json × List Char) := do
  let (whole, rest) := takeDigits cs
  if whole.isEmpty || (whole.head? == some '0' && whole.length ≠ 1) then none
  else
    let (significand, fitted) := takeFitting 0 0 whole
    let dropped : Int := whole.length - fitted
    let finish (significand : Nat) (exponent : Int) (rest : List Char) : Option (Json × List Char) :=
      match rest with
      | c :: after =>
        if c = 'e' ∨ c = 'E' then do
          let (e, after) ← readExponent after
          let x ← ofParts negative significand (exponent + e)
          pure (.float x, after)
        else do
          let x ← ofParts negative significand exponent
          pure (.float x, rest)
      | [] => do
        let x ← ofParts negative significand exponent
        pure (.float x, rest)
    match rest with
    | '.' :: after =>
      let (fraction, rest) := takeDigits after
      if fraction.isEmpty then none
      else
        let (significand, places) := takeFitting significand 0 fraction
        finish significand (dropped - places) rest
    | c :: _ =>
      if c = 'e' ∨ c = 'E' ∨ 0 < dropped then finish significand dropped rest
      else pure (integer significand, rest)
    | [] =>
      if 0 < dropped then finish significand dropped rest
      else pure (integer significand, rest)
where
  /-- A negative zero and negative numbers below the least signed word are floats. -/
  integer (significand : Nat) : Json :=
    if negative then
      if significand = 0 ∨ Nat.pow 2 63 < significand then .float (-Binary64.ofInt significand)
      else .int (-(significand : Int))
    else .int significand

def skipBlank (cs : List Char) : List Char :=
  cs.dropWhile fun c => c = ' ' || c = '\n' || c = '\r' || c = '\t'

def hexValue? (c : Char) : Option Nat :=
  if c.isDigit then some (c.toNat - 48)
  else if 'a' ≤ c ∧ c ≤ 'f' then some (c.toNat - 87)
  else if 'A' ≤ c ∧ c ≤ 'F' then some (c.toNat - 55)
  else none

def readUnit : List Char → Option (Nat × List Char)
  | a :: b :: c :: d :: rest => do
    let a ← hexValue? a
    let b ← hexValue? b
    let c ← hexValue? c
    let d ← hexValue? d
    pure (((a * 16 + b) * 16 + c) * 16 + d, rest)
  | _ => none

/-- The character after `\u`: one unit, or two units of a pair; a unit of a pair alone is refused. -/
def readCodePoint (cs : List Char) : Option (Char × List Char) := do
  let (unit, rest) ← readUnit cs
  if 0xD800 ≤ unit ∧ unit < 0xDC00 then
    match rest with
    | '\\' :: 'u' :: rest =>
      let (low, rest) ← readUnit rest
      if 0xDC00 ≤ low ∧ low < 0xE000 then
        pure (Char.ofNat (0x10000 + (unit - 0xD800) * 0x400 + (low - 0xDC00)), rest)
      else none
    | _ => none
  else if 0xDC00 ≤ unit ∧ unit < 0xE000 then none
  else pure (Char.ofNat unit, rest)

def readString : (fuel : Nat) → List Char → Option (List Char × List Char)
  | 0, _ => none
  | _ + 1, [] => none
  | fuel + 1, c :: rest =>
    let more (c : Char) (rest : List Char) : Option (List Char × List Char) :=
      (readString fuel rest).map fun (cs, rest) => (c :: cs, rest)
    if c = '"' then some ([], rest)
    else if c = '\\' then
      match rest with
      | '"' :: rest => more '"' rest
      | '\\' :: rest => more '\\' rest
      | '/' :: rest => more '/' rest
      | 'b' :: rest => more (Char.ofNat 8) rest
      | 'f' :: rest => more (Char.ofNat 12) rest
      | 'n' :: rest => more '\n' rest
      | 'r' :: rest => more '\r' rest
      | 't' :: rest => more '\t' rest
      | 'u' :: rest =>
        match readCodePoint rest with
        | some (c, rest) => more c rest
        | none => none
      | _ => none
    else if c.toNat < 32 then none
    else more c rest

def depthLimit : Nat := 127

mutual

def readValue : (fuel depth : Nat) → List Char → Option (Json × List Char)
  | 0, _, _ => none
  | fuel + 1, depth, cs =>
    match skipBlank cs with
    | [] => none
    | '"' :: rest => (readString (rest.length + 1) rest).map fun (s, rest) => (.str (String.ofList s), rest)
    | '[' :: rest =>
      if depth = 0 then none
      else
        match skipBlank rest with
        | ']' :: rest => some (.arr [], rest)
        | rest => (readItems fuel (depth - 1) rest).map fun (items, rest) => (.arr items, rest)
    | '\x7b' :: rest =>
      if depth = 0 then none
      else
        match skipBlank rest with
        | '\x7d' :: rest => some (.obj [], rest)
        | rest => (readMembers fuel (depth - 1) rest).map fun (members, rest) => (.obj members, rest)
    | '-' :: rest => readNumber true rest
    | c :: rest =>
      if c.isDigit then readNumber false (c :: rest)
      else
        match afterPrefix? "true".toList (c :: rest) with
        | some rest => some (.bool true, rest)
        | none =>
          match afterPrefix? "false".toList (c :: rest) with
          | some rest => some (.bool false, rest)
          | none =>
            match afterPrefix? "null".toList (c :: rest) with
            | some rest => some (.null, rest)
            | none => none

def readItems : (fuel depth : Nat) → List Char → Option (List Json × List Char)
  | 0, _, _ => none
  | fuel + 1, depth, cs =>
    match readValue fuel depth cs with
    | none => none
    | some (v, rest) =>
      match skipBlank rest with
      | ',' :: rest => (readItems fuel depth rest).map fun (items, rest) => (v :: items, rest)
      | ']' :: rest => some ([v], rest)
      | _ => none

def readMembers : (fuel depth : Nat) → List Char → Option (List (String × Json) × List Char)
  | 0, _, _ => none
  | fuel + 1, depth, cs =>
    match skipBlank cs with
    | '"' :: rest =>
      match readString (rest.length + 1) rest with
      | none => none
      | some (key, rest) =>
        match skipBlank rest with
        | ':' :: rest =>
          match readValue fuel depth rest with
          | none => none
          | some (v, rest) =>
            match skipBlank rest with
            | ',' :: rest =>
              (readMembers fuel depth rest).map fun (members, rest) => ((String.ofList key, v) :: members, rest)
            | '\x7d' :: rest => some ([(String.ofList key, v)], rest)
            | _ => none
        | _ => none
    | _ => none

end

def parse? (s : String) : Option Json :=
  let cs := s.toList
  match readValue (2 * cs.length + 2) depthLimit cs with
  | some (v, rest) => if (skipBlank rest).isEmpty then some v else none
  | none => none

end Json

end ShelfQuery.Data
