import ShelfQuery.Data.Yaml.Scalar
import ShelfQuery.Text.Words

set_option autoImplicit false

/-!
# YAML tokens

A key without a question mark is recognised only when its colon is met, so each place where such a key may begin is
left as a slot among the tokens.
-/

namespace ShelfQuery.Data.Yaml

inductive Token where
  | version (major minor : Nat)
  | tagHandle (handle lead : String)
  | documentStart
  | documentEnd
  | sequenceStart
  | mappingStart
  | blockEnd
  | flowSequenceStart
  | flowSequenceEnd
  | flowMappingStart
  | flowMappingEnd
  | entry
  | flowEntry
  | key
  | value
  | alias (name : String)
  | anchor (name : String)
  | tag (handle suffix : String)
  | scalar (text : String) (plain : Bool)
  deriving DecidableEq

inductive Piece where
  | token (t : Token)
  | slot (n : Nat)

/-- A place where a key may begin. A key that is required stands where the block's keys stand. -/
structure PendingKey where
  slot : Nat
  required : Bool
  index : Nat
  line : Nat
  column : Nat

/-- `keys` has one place for the block level and one for each open bracket, the innermost first.
`filled` says of each filled slot whether a mapping starts there too. -/
structure Scanner where
  rest : List Char
  index : Nat := 0
  line : Nat := 0
  column : Nat := 0
  indent : Int := -1
  outer : List Int := []
  keyAllowed : Bool := true
  keys : List (Option PendingKey) := [none]
  pieces : List Piece := []
  slots : Nat := 0
  filled : List (Nat × Bool) := []

namespace Scanner

def inFlow (s : Scanner) : Bool := 1 < s.keys.length

def moveOver : (line column : Nat) → List Char → Nat × Nat
  | line, column, [] => (line, column)
  | line, _, '\r' :: '\n' :: rest => moveOver (line + 1) 0 rest
  | line, column, c :: rest => if isBreak c then moveOver (line + 1) 0 rest else moveOver line (column + 1) rest

def goto (s : Scanner) (rest : List Char) : Scanner :=
  let read := s.rest.take (s.rest.length - rest.length)
  let (line, column) := moveOver s.line s.column read
  { s with rest, line, column, index := s.index + read.length }

def skip (s : Scanner) (n : Nat) : Scanner := s.goto (s.rest.drop n)

def push (s : Scanner) (t : Token) : Scanner := { s with pieces := .token t :: s.pieces }

def allowKey (s : Scanner) (allowed : Bool) : Scanner := { s with keyAllowed := allowed }

/-- Skips blanks, comments and line breaks. A new line in a block may start a key. Where a key may
start, a tab is no blank. -/
def toToken (inFlow : Bool) : (comment allowed : Bool) → List Char → Bool × List Char
  | _, allowed, [] => (allowed, [])
  | comment, allowed, c :: rest =>
    if isBreak c then toToken inFlow false (allowed || !inFlow) rest
    else if comment then toToken inFlow true allowed rest
    else if c == ' ' || (c == '\t' && (inFlow || !allowed)) then toToken inFlow false allowed rest
    else if c == '#' then toToken inFlow true allowed rest
    else (allowed, c :: rest)

/-- A key fits on one line and has at most 1024 characters. -/
def isStale (s : Scanner) (k : PendingKey) : Bool := k.line < s.line || k.index + 1024 < s.index

def dropStale (s : Scanner) : Option Scanner :=
  if s.keys.any fun k => k.any fun k => s.isStale k && k.required then none
  else some { s with keys := s.keys.map fun k => k.filter fun k => !s.isStale k }

def dropKey (s : Scanner) : Option Scanner :=
  match s.keys with
  | some k :: keys => if k.required then none else some { s with keys := none :: keys }
  | _ => some s

def mayBeKey (s : Scanner) : Option Scanner :=
  if s.keyAllowed then do
    let s ← s.dropKey
    let key : PendingKey := ⟨s.slots, !s.inFlow && s.indent == s.column, s.index, s.line, s.column⟩
    return { s with keys := some key :: s.keys.drop 1, slots := s.slots + 1, pieces := .slot s.slots :: s.pieces }
  else some s

def deepens (s : Scanner) (column : Nat) : Bool := !s.inFlow && s.indent < column

def deepen (s : Scanner) (column : Nat) : Scanner := { s with outer := s.indent :: s.outer, indent := column }

def openBlock (s : Scanner) (t : Token) : Scanner :=
  if s.deepens s.column then (s.deepen s.column).push t else s

def closeBlocks (column : Int) : List Int → (indent : Int) → List Piece → Int × List Int × List Piece
  | [], indent, pieces => (indent, [], pieces)
  | o :: outer, indent, pieces =>
    if column < indent then closeBlocks column outer o (.token .blockEnd :: pieces) else (indent, o :: outer, pieces)

def closeTo (s : Scanner) (column : Int) : Scanner :=
  if s.inFlow then s
  else
    let (indent, outer, pieces) := closeBlocks column s.outer s.indent s.pieces
    { s with indent, outer, pieces }

def isWordChar (c : Char) : Bool := c.isAlphanum || c == '_' || c == '-'

def documentMark (s : Scanner) (t : Token) : Option Scanner := do
  let s ← (s.closeTo (-1)).dropKey
  return ((s.allowKey false).skip 3).push t

def flowStart (s : Scanner) (t : Token) : Option Scanner := do
  let s ← s.mayBeKey
  return (({ s with keys := none :: s.keys }.allowKey true).skip 1).push t

def flowEnd (s : Scanner) (t : Token) : Option Scanner := do
  let s ← s.dropKey
  let keys := if s.inFlow then s.keys.drop 1 else s.keys
  return (({ s with keys }.allowKey false).skip 1).push t

def flowEntry (s : Scanner) : Option Scanner := do
  let s ← s.dropKey
  return ((s.allowKey true).skip 1).push .flowEntry

def blockEntry (s : Scanner) : Option Scanner :=
  if !s.inFlow && !s.keyAllowed then none
  else do
    let s ← (s.openBlock .sequenceStart).dropKey
    return ((s.allowKey true).skip 1).push .entry

def explicitKey (s : Scanner) : Option Scanner :=
  if !s.inFlow && !s.keyAllowed then none
  else do
    let s ← (s.openBlock .mappingStart).dropKey
    return ((s.allowKey (!s.inFlow)).skip 1).push .key

/-- A colon: it fills the slot of the key before it, or stands alone. -/
def colon (s : Scanner) : Option Scanner :=
  match s.keys with
  | some k :: keys =>
    let opens := s.deepens k.column
    let s := if opens then s.deepen k.column else s
    let s := { s with keys := none :: keys, filled := (k.slot, opens) :: s.filled }
    some (((s.allowKey false).skip 1).push .value)
  | _ =>
    if !s.inFlow && !s.keyAllowed then none
    else
      let s := s.openBlock .mappingStart
      some (((s.allowKey (!s.inFlow)).skip 1).push .value)

def endsName (cs : List Char) : Bool :=
  atBlank cs ||
    match cs with
    | c :: _ => c == '?' || c == ':' || c == ',' || c == ']' || c == '\x7d' || c == '%' || c == '@' || c == '\x60'
    | [] => true

def name (s : Scanner) (t : String → Token) : Option Scanner := do
  let s ← s.mayBeKey
  let cs := s.rest.drop 1
  let word := cs.takeWhile isWordChar
  let rest := cs.dropWhile isWordChar
  if word.isEmpty || !endsName rest then none
  else return ((s.allowKey false).goto rest).push (t (String.ofList word))

def isUriChar (verbatim : Bool) (c : Char) : Bool :=
  isWordChar c || c == ';' || c == '/' || c == '?' || c == ':' || c == '@' || c == '&' || c == '=' || c == '+' ||
    c == '$' || c == '.' || c == '!' || c == '~' || c == '*' || c == '\'' || c == '(' || c == ')' ||
    (verbatim && (c == ',' || c == '[' || c == ']'))

def uriBytes (verbatim : Bool) : (fuel : Nat) → List Char → Option (List UInt8 × List Char)
  | 0, _ => none
  | fuel + 1, '%' :: a :: b :: rest => do
    let high ← hexDigit? a
    let low ← hexDigit? b
    let (more, rest) ← uriBytes verbatim fuel rest
    return ((16 * high + low).toUInt8 :: more, rest)
  | fuel + 1, c :: rest =>
    if c == '%' then none
    else if isUriChar verbatim c then do
      let (more, rest) ← uriBytes verbatim fuel rest
      return (c.toNat.toUInt8 :: more, rest)
    else some ([], c :: rest)
  | _ + 1, [] => some ([], [])

def readUri (verbatim : Bool) (cs : List Char) : Option (String × List Char) := do
  let (bytes, rest) ← uriBytes verbatim (cs.length + 1) cs
  let text ← String.fromUTF8? ⟨bytes.toArray⟩
  return (text, rest)

def readHandle : List Char → Option (List Char × Bool × List Char)
  | '!' :: cs =>
    let word := cs.takeWhile isWordChar
    match cs.dropWhile isWordChar with
    | '!' :: rest => some ('!' :: word ++ ['!'], true, rest)
    | rest => some ('!' :: word, false, rest)
  | _ => none

def readTag : List Char → Option (String × String × List Char)
  | '!' :: '<' :: cs => do
    let (suffix, rest) ← readUri true cs
    match rest with
    | '>' :: rest => if suffix.isEmpty then none else some ("", suffix, rest)
    | _ => none
  | cs => do
    let (handle, closed, rest) ← readHandle cs
    let (suffix, rest) ← readUri false rest
    if closed then
      if suffix.isEmpty then none else some (String.ofList handle, suffix, rest)
    else
      let suffix := String.ofList (handle.drop 1) ++ suffix
      if suffix.isEmpty then some ("", "!", rest) else some ("!", suffix, rest)

def tag (s : Scanner) : Option Scanner := do
  let s ← s.mayBeKey
  let (handle, suffix, rest) ← readTag s.rest
  if atBlank rest || (s.inFlow && rest.head? == some ',') then
    return ((s.allowKey false).goto rest).push (.tag handle suffix)
  else none

def readNumber (cs : List Char) : Option (Nat × List Char) :=
  let digits := cs.takeWhile Char.isDigit
  if digits.length < 10 then (Text.digitsValue? digits).map fun n => (n, cs.dropWhile Char.isDigit) else none

def readVersion (cs : List Char) : Option (Token × List Char) := do
  let (major, rest) ← readNumber (cs.dropWhile isSpace)
  match rest with
  | '.' :: rest => do
    let (minor, rest) ← readNumber rest
    return (.version major minor, rest)
  | _ => none

def readTagHandle (cs : List Char) : Option (Token × List Char) := do
  let (handle, closed, rest) ← readHandle (cs.dropWhile isSpace)
  if !closed && handle != ['!'] then none
  else if !startsBlank rest then none
  else do
    let (lead, rest) ← readUri true (rest.dropWhile isSpace)
    if lead.isEmpty || !atBlank rest then none
    else return (.tagHandle (String.ofList handle) lead, rest)

def directive (s : Scanner) : Option Scanner := do
  let s ← (s.closeTo (-1)).dropKey
  let cs := s.rest.drop 1
  let rest := cs.dropWhile isWordChar
  if !atBlank rest then none
  else do
    let (t, rest) ←
      match String.ofList (cs.takeWhile isWordChar) with
      | "YAML" => readVersion rest
      | "TAG" => readTagHandle rest
      | _ => none
    let rest ← endHeader rest
    return ((s.allowKey false).goto rest).push t

def block (s : Scanner) (literal : Bool) : Option Scanner := do
  let s ← s.dropKey
  let (text, rest) ← readBlock literal s.indent (s.rest.drop 1)
  return ((s.allowKey true).goto rest).push (.scalar (String.ofList text) false)

def quoted (s : Scanner) (single : Bool) : Option Scanner := do
  let s ← s.mayBeKey
  let (text, rest) ← readQuoted single (s.rest.length + 1) (s.column + 1) (s.rest.drop 1)
  return ((s.allowKey false).goto rest).push (.scalar (String.ofList text) false)

def plain (s : Scanner) : Option Scanner := do
  let s ← s.mayBeKey
  let (text, broken, rest) ← readPlain s.inFlow (s.indent + 1).toNat s.column s.rest
  return ((s.allowKey broken).goto rest).push (.scalar (String.ofList text) true)

def isReserved (c : Char) : Bool :=
  c == '-' || c == '?' || c == ':' || isFlowMark c || c == '#' || c == '&' || c == '*' || c == '!' || c == '|' ||
    c == '>' || c == '\'' || c == '"' || c == '%' || c == '@' || c == '\x60'

def startsPlain (inFlow : Bool) (c : Char) (rest : List Char) : Bool :=
  !(isSpace c || isReserved c) || (c == '-' && !startsBlank rest) ||
    (!inFlow && (c == '?' || c == ':') && !atBlank rest)

def readToken (s : Scanner) (c : Char) (rest : List Char) : Option Scanner :=
  if s.column == 0 && c == '%' then s.directive
  else if s.column == 0 && c == '-' && atDocumentMark s.rest then s.documentMark .documentStart
  else if s.column == 0 && c == '.' && atDocumentMark s.rest then s.documentMark .documentEnd
  else if c == '[' then s.flowStart .flowSequenceStart
  else if c == '\x7b' then s.flowStart .flowMappingStart
  else if c == ']' then s.flowEnd .flowSequenceEnd
  else if c == '\x7d' then s.flowEnd .flowMappingEnd
  else if c == ',' then s.flowEntry
  else if c == '-' && atBlank rest then s.blockEntry
  else if c == '?' && (s.inFlow || atBlank rest) then s.explicitKey
  else if c == ':' && (s.inFlow || atBlank rest) then s.colon
  else if c == '*' then s.name .alias
  else if c == '&' then s.name .anchor
  else if c == '!' then s.tag
  else if c == '|' && !s.inFlow then s.block true
  else if c == '>' && !s.inFlow then s.block false
  else if c == '\'' then s.quoted true
  else if c == '"' then s.quoted false
  else if startsPlain s.inFlow c rest then s.plain
  else none

def run : (fuel : Nat) → Scanner → Option Scanner
  | 0, _ => none
  | fuel + 1, s => do
    let (allowed, rest) := toToken s.inFlow false s.keyAllowed s.rest
    let s ← ((s.goto rest).allowKey allowed).dropStale
    match s.rest with
    | [] => (s.closeTo (-1)).dropKey
    | c :: rest => do
      let s ← (s.closeTo s.column).readToken c rest
      run fuel s

end Scanner

def Piece.tokens (filled : List (Nat × Bool)) : Piece → List Token
  | .token t => [t]
  | .slot n =>
    match filled.find? fun f => f.1 == n with
    | some (_, true) => [.mappingStart, .key]
    | some (_, false) => [.key]
    | none => []

def isAllowed (c : Char) : Bool :=
  let n := c.toNat
  n == 0x09 || n == 0x0a || n == 0x0d || (0x20 ≤ n && n ≤ 0x7e) || n == 0x85 ||
    (0xa0 ≤ n && n ≤ 0xd7ff) || (0xe000 ≤ n && n ≤ 0xfffd) || 0x10000 ≤ n

def dropMark : List Char → List Char
  | c :: rest => if c == '\ufeff' then rest else c :: rest
  | [] => []

def tokens? (text : String) : Option (List Token) :=
  let cs := dropMark text.toList
  if cs.all isAllowed then
    (Scanner.run (cs.length + 1) { rest := cs }).map fun s => s.pieces.reverse.flatMap (Piece.tokens s.filled)
  else none

end ShelfQuery.Data.Yaml
