import ShelfQuery.Expression.Lexer

set_option autoImplicit false

/-!
# Reading trees

The grammar, loosest binding first:

    or        := and (OR and)*
    and       := NOT and | predicate (AND and)?
    predicate := sum [ comparison sum | [NOT] IN ( or, … ) | [NOT] LIKE sum | [NOT] ILIKE sum
                     | BETWEEN sum AND sum | IS [NOT] NULL | IS offset units ]
    sum       := product ((+ | -) product)*
    product   := unary ((* | /) unary)*
    unary     := - unary | primary
    primary   := constant | column | name ( args ) | ( or ) | total of or

NOT takes everything to its right that is joined by AND. Each function takes the tokens left and
gives a tree with the tokens after it. The fuel bounds the depth of calls; `fuelFor` is enough for
a list of tokens.
-/

namespace ShelfQuery.Expression

def endToken : Token := ⟨.eof, 0⟩

def peek (ts : List Token) : Token := ts.headD endToken

def advance : List Token → List Token
  | [] => []
  | t :: rest => if t.kind.isEof then t :: rest else rest

def expect (wanted : TokenKind) (fits : TokenKind → Bool) (ts : List Token) :
    Except Diagnostic (List Token) :=
  let t := peek ts
  if fits t.kind then .ok (advance ts) else .error (.placed (.expected wanted t.kind) t.pos)

def expectMark (m : Mark) (ts : List Token) : Except Diagnostic (List Token) :=
  expect (.mark m) (TokenKind.isMark m) ts

def expectKeyword (k : Keyword) (ts : List Token) : Except Diagnostic (List Token) :=
  expect (.keyword k) (TokenKind.isKeyword k) ts

def comparisonOf? : TokenKind → Option Comparison
  | .mark .eq => some .eq
  | .mark .ne => some .ne
  | .mark .lt => some .lt
  | .mark .le => some .le
  | .mark .gt => some .gt
  | .mark .ge => some .ge
  | _ => none

def sumOf? : TokenKind → Option Arith
  | .mark .plus => some .add
  | .mark .minus => some .sub
  | _ => none

def productOf? : TokenKind → Option Arith
  | .mark .star => some .mul
  | .mark .slash => some .div
  | _ => none

def negates (ts : List Token) : Bool :=
  let next := (peek (advance ts)).kind
  (peek ts).kind.isKeyword .not && (next.isKeyword .in || next.isKeyword .like || next.isKeyword .ilike)

def parseIs (left : Tree) (ts : List Token) : Except Diagnostic (Tree × List Token) :=
  let negated := (peek ts).kind.isKeyword .not
  let ts := if negated then advance ts else ts
  if (peek ts).kind.isKeyword .null then .ok (.isNull left.pos left negated, advance ts)
  else
    let t := peek ts
    let rest := advance ts
    match negated, t.kind, (peek rest).kind with
    | false, .word offset, .word units => .ok (.isRange left.pos left offset units t.pos, advance rest)
    | _, kind, _ => .error (.placed (.rangeExpected kind) t.pos)

section

-- `stop` is what is reported when the fuel does not suffice
variable (stop : Diagnostic)

mutual

def parseOr : (fuel : Nat) → List Token → Except Diagnostic (Tree × List Token)
  | 0, _ => .error stop
  | fuel + 1, ts => do
    let (left, ts) ← parseAnd fuel ts
    parseOrRest fuel left ts

def parseOrRest : (fuel : Nat) → Tree → List Token → Except Diagnostic (Tree × List Token)
  | 0, _, _ => .error stop
  | fuel + 1, left, ts =>
    if (peek ts).kind.isKeyword .or then do
      let (right, ts) ← parseAnd fuel (advance ts)
      parseOrRest fuel (.or left.pos left right) ts
    else .ok (left, ts)

def parseAnd : (fuel : Nat) → List Token → Except Diagnostic (Tree × List Token)
  | 0, _ => .error stop
  | fuel + 1, ts =>
    let t := peek ts
    if t.kind.isKeyword .not then do
      let (arg, ts) ← parseAnd fuel (advance ts)
      .ok (.not t.pos arg, ts)
    else do
      let (left, ts) ← parsePredicate fuel ts
      if (peek ts).kind.isKeyword .and then do
        let (right, ts) ← parseAnd fuel (advance ts)
        .ok (.and left.pos left right, ts)
      else .ok (left, ts)

def parsePredicate : (fuel : Nat) → List Token → Except Diagnostic (Tree × List Token)
  | 0, _ => .error stop
  | fuel + 1, ts => do
    let (left, ts) ← parseSum fuel ts
    parsePredicateRest fuel left ts

def parsePredicateRest : (fuel : Nat) → Tree → List Token → Except Diagnostic (Tree × List Token)
  | 0, _, _ => .error stop
  | fuel + 1, left, ts =>
    match comparisonOf? (peek ts).kind with
    | some op => do
      let (right, ts) ← parseSum fuel (advance ts)
      .ok (.compare left.pos op left right, ts)
    | none => if negates ts then parseOperator fuel left true (advance ts) else parseOperator fuel left false ts

def parseOperator : (fuel : Nat) → Tree → (negated : Bool) → List Token → Except Diagnostic (Tree × List Token)
  | 0, _, _, _ => .error stop
  | fuel + 1, left, negated, ts =>
    match (peek ts).kind with
    | .keyword .in => do
      let ts ← expectMark .openParen (advance ts)
      let (items, ts) ← parseItems fuel ts
      .ok (.inList left.pos left items negated, ts)
    | .keyword .like => do
      let (pattern, ts) ← parseSum fuel (advance ts)
      .ok (.like left.pos left pattern false negated, ts)
    | .keyword .ilike => do
      let (pattern, ts) ← parseSum fuel (advance ts)
      .ok (.like left.pos left pattern true negated, ts)
    | .keyword .between => do
      let (low, ts) ← parseSum fuel (advance ts)
      let ts ← expectKeyword .and ts
      let (high, ts) ← parseSum fuel ts
      .ok (.between left.pos left low high, ts)
    | .keyword .is => parseIs left (advance ts)
    | _ => .ok (left, ts)

def parseItems : (fuel : Nat) → List Token → Except Diagnostic (List Tree × List Token)
  | 0, _ => .error stop
  | fuel + 1, ts => do
    let (item, ts) ← parseOr fuel ts
    if (peek ts).kind.isMark .comma then
      let ts := advance ts
      if (peek ts).kind.isMark .closeParen then .ok ([item], advance ts)
      else do
        let (items, ts) ← parseItems fuel ts
        .ok (item :: items, ts)
    else do
      let ts ← expectMark .closeParen ts
      .ok ([item], ts)

def parseSum : (fuel : Nat) → List Token → Except Diagnostic (Tree × List Token)
  | 0, _ => .error stop
  | fuel + 1, ts => do
    let (left, ts) ← parseProduct fuel ts
    parseSumRest fuel left ts

def parseSumRest : (fuel : Nat) → Tree → List Token → Except Diagnostic (Tree × List Token)
  | 0, _, _ => .error stop
  | fuel + 1, left, ts =>
    match sumOf? (peek ts).kind with
    | some op => do
      let (right, ts) ← parseProduct fuel (advance ts)
      parseSumRest fuel (.arith left.pos op left right) ts
    | none => .ok (left, ts)

def parseProduct : (fuel : Nat) → List Token → Except Diagnostic (Tree × List Token)
  | 0, _ => .error stop
  | fuel + 1, ts => do
    let (left, ts) ← parseUnary fuel ts
    parseProductRest fuel left ts

def parseProductRest : (fuel : Nat) → Tree → List Token → Except Diagnostic (Tree × List Token)
  | 0, _, _ => .error stop
  | fuel + 1, left, ts =>
    match productOf? (peek ts).kind with
    | some op => do
      let (right, ts) ← parseUnary fuel (advance ts)
      parseProductRest fuel (.arith left.pos op left right) ts
    | none => .ok (left, ts)

def parseUnary : (fuel : Nat) → List Token → Except Diagnostic (Tree × List Token)
  | 0, _ => .error stop
  | fuel + 1, ts =>
    let t := peek ts
    if t.kind.isMark .minus then do
      let (arg, ts) ← parseUnary fuel (advance ts)
      .ok (.neg t.pos arg, ts)
    else parsePrimary fuel ts

def parsePrimary : (fuel : Nat) → List Token → Except Diagnostic (Tree × List Token)
  | 0, _ => .error stop
  | fuel + 1, ts =>
    let t := peek ts
    let rest := advance ts
    let constant (c : Constant) : Except Diagnostic (Tree × List Token) := .ok (.constant t.pos c, rest)
    match t.kind with
    | .int n => constant (.int n)
    | .float x => constant (.float x)
    | .text s => constant (.text s)
    | .keyword .true => constant (.bool true)
    | .keyword .false => constant (.bool false)
    | .keyword .null => constant .null
    | .column name => .ok (.column t.pos name, rest)
    | .mark .star => .ok (.star t.pos, rest)
    | .word name =>
      if (peek rest).kind.isMark .openParen then do
        let (args, ts) ← parseArgs fuel (advance rest)
        .ok (.call t.pos name args, ts)
      else .ok (.column t.pos name, rest)
    | .mark .openParen => do
      let (inner, ts) ← parseOr fuel rest
      let ts ← expectMark .closeParen ts
      .ok (inner, ts)
    | .mark .openTotal => do
      let (inner, ts) ← parseOr fuel rest
      let ts ← expectMark .closeTotal ts
      .ok (.total t.pos inner, ts)
    | .reference name => .error (.placed (.unexpandedReference name) t.pos)
    | kind => .error (.placed (.unexpected kind) t.pos)

def parseArgs : (fuel : Nat) → List Token → Except Diagnostic (List Tree × List Token)
  | 0, _ => .error stop
  | fuel + 1, ts =>
    if (peek ts).kind.isMark .closeParen then .ok ([], advance ts)
    else parseArgsRest fuel ts

def parseArgsRest : (fuel : Nat) → List Token → Except Diagnostic (List Tree × List Token)
  | 0, _ => .error stop
  | fuel + 1, ts => do
    let (arg, ts) ← parseOr fuel ts
    if (peek ts).kind.isMark .comma then do
      let (args, ts) ← parseArgsRest fuel (advance ts)
      .ok (arg :: args, ts)
    else do
      let ts ← expectMark .closeParen ts
      .ok ([arg], ts)

end

end

/-- Between two tokens at most nine calls are nested. -/
def fuelFor (ts : List Token) : Nat := 10 * (ts.length + 1)

def parseTokens (ts : List Token) : Except Diagnostic Tree :=
  if (peek ts).kind.isEof then .error (.placed .empty 0)
  else
    match parseOr (.placed .empty 0) (fuelFor ts) ts with
    | .error d => .error d
    | .ok (tree, rest) =>
      let t := peek rest
      if t.kind.isEof then .ok tree else .error (.placed (.unexpected t.kind) t.pos)

def Tree.parse (text : String) : Except Diagnostic Tree :=
  match scan text with
  | .error d => .error d
  | .ok ts => parseTokens ts

end ShelfQuery.Expression
