import ShelfQuery.Expression.Fault

set_option autoImplicit false

namespace ShelfQuery.Expression

open ShelfQuery.Text

structure Scanned where
  kind : TokenKind
  pos : Nat
  rest : List Char

def isWordChar (c : Char) : Bool := isAlphanumeric c || c == '_'

def scanColumn (start : Nat) (cs : List Char) : Except Diagnostic Scanned :=
  let name := cs.takeWhile (· ≠ ']')
  match cs.drop name.length with
  | [] => .error (.placed .unterminatedColumn start)
  | _ :: rest =>
    let trimmed := trim name
    if trimmed.isEmpty then .error (.placed .emptyColumn start)
    else .ok ⟨.column (String.ofList trimmed), start + 1, rest⟩

/-- The rest of a text, up to the closing quote. A backslash takes the next character as it is. -/
def scanQuoted (quote : Char) : List Char → Option (List Char × List Char)
  | [] => none
  | '\\' :: [] => none
  | '\\' :: c :: rest => (scanQuoted quote rest).map fun (cs, rest) => (c :: cs, rest)
  | c :: rest =>
    if c = quote then some ([], rest)
    else (scanQuoted quote rest).map fun (cs, rest) => (c :: cs, rest)

/-- The digits that `cs` begins with, with at most one point before, among or after them. -/
def takeNumber (cs : List Char) : List Char × List Char :=
  let (whole, rest) := Number.takeDigits cs
  match rest with
  | '.' :: after =>
    let (fraction, rest) := Number.takeDigits after
    (whole ++ '.' :: fraction, rest)
  | rest => (whole, rest)

def numberKind? (digits : List Char) : Option TokenKind :=
  match (digitsValue? digits).filter (· < Nat.pow 2 63) with
  | some n => some (.int n)
  | none => (Number.parse? (String.ofList digits)).map .float

def scanNumber (start : Nat) (cs : List Char) : Except Diagnostic Scanned :=
  let (digits, rest) := takeNumber cs
  match numberKind? digits with
  | some kind => .ok ⟨kind, start, rest⟩
  | none => .error (.placed (.invalidNumber (String.ofList digits)) start)

def scanWord (start : Nat) (cs : List Char) : Scanned :=
  let word := String.ofList (cs.takeWhile isWordChar)
  let kind :=
    match Keyword.ofWord? word with
    | some k => .keyword k
    | none => .word word
  ⟨kind, start, cs.dropWhile isWordChar⟩

def startsWithDigit : List Char → Bool
  | c :: _ => c.isDigit
  | [] => false

def scanToken (start : Nat) (c : Char) (cs : List Char) : Except Diagnostic Scanned :=
  let mark (m : Mark) (rest : List Char) : Except Diagnostic Scanned := .ok ⟨.mark m, start, rest⟩
  let refuse : Except Diagnostic Scanned := .error (.placed (.unexpectedCharacter c) start)
  match c with
  | '+' => mark .plus cs
  | '-' => mark .minus cs
  | '*' => mark .star cs
  | '/' => mark .slash cs
  | '(' => mark .openParen cs
  | ')' => mark .closeParen cs
  | ',' => mark .comma cs
  | '=' =>
    match cs with
    | '=' :: rest => mark .eq rest
    | _ => mark .eq cs
  | '!' =>
    match cs with
    | '=' :: rest => mark .ne rest
    | _ => refuse
  | '<' =>
    match cs with
    | '=' :: rest => mark .le rest
    | '>' :: rest => mark .ne rest
    | _ => mark .lt cs
  | '>' =>
    match cs with
    | '=' :: rest => mark .ge rest
    | _ => mark .gt cs
  | '\x7b' =>
    match cs with
    | '\x7b' :: rest => mark .openTotal rest
    | _ => refuse
  | '\x7d' =>
    match cs with
    | '\x7d' :: rest => mark .closeTotal rest
    | _ => refuse
  | '[' => scanColumn start cs
  | '@' =>
    let name := cs.takeWhile isWordChar
    if name.isEmpty then .error (.placed .nameExpected start)
    else .ok ⟨.reference (String.ofList name), start, cs.dropWhile isWordChar⟩
  | c =>
    if c = '"' ∨ c = '\'' then
      match scanQuoted c cs with
      | some (value, rest) => .ok ⟨.text (String.ofList value), start, rest⟩
      | none => .error (.placed .unterminatedText start)
    else if c.isDigit || (c == '.' && startsWithDigit cs) then scanNumber start (c :: cs)
    else if isAlphabetic c || c == '_' then .ok (scanWord start (c :: cs))
    else refuse

/-- The tokens of `cs`, whose first character has offset `pos`. The fuel counts characters. -/
def scanFrom : (fuel pos : Nat) → List Char → Except Diagnostic (List Token)
  | 0, pos, _ => .ok [⟨.eof, pos⟩]
  | fuel + 1, pos, cs =>
    let gap := (cs.takeWhile isBlank).length
    match cs.drop gap with
    | [] => .ok [⟨.eof, pos + gap⟩]
    | c :: rest =>
      match scanToken (pos + gap) c rest with
      | .error d => .error d
      | .ok s =>
        match scanFrom fuel (pos + cs.length - s.rest.length) s.rest with
        | .error d => .error d
        | .ok tokens => .ok (⟨s.kind, s.pos⟩ :: tokens)

def scan (text : String) : Except Diagnostic (List Token) :=
  scanFrom (text.toList.length + 1) 0 text.toList

end ShelfQuery.Expression
