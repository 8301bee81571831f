import ShelfQuery.Data.Value
import ShelfQuery.Calendar.Date

set_option autoImplicit false

namespace ShelfQuery.Data.Toml

open ShelfQuery.Text

def isSpace (c : Char) : Bool := c == ' ' || c == '\t'

def skipSpace (cs : List Char) : List Char := cs.dropWhile isSpace

def isPrintable (c : Char) : Bool := c == '\t' || (' ' ≤ c && c ≠ '\x7f')

def newline? : List Char → Option (List Char)
  | '\n' :: rest => some rest
  | '\r' :: '\n' :: rest => some rest
  | _ => none

def hexDigit? (c : Char) : Option Nat :=
  if c.isDigit then some (c.toNat - 48)
  else if 'a' ≤ c ∧ c ≤ 'f' then some (c.toNat - 87)
  else if 'A' ≤ c ∧ c ≤ 'F' then some (c.toNat - 55)
  else none

def hexValue? : (count value : Nat) → List Char → Option (Nat × List Char)
  | 0, value, rest => some (value, rest)
  | count + 1, value, c :: rest => do hexValue? count (16 * value + (← hexDigit? c)) rest
  | _ + 1, _, [] => none

def codePoint? (digits : Nat) (cs : List Char) : Option (Char × List Char) := do
  let (n, rest) ← hexValue? digits 0 cs
  if n.isValidChar then some (Char.ofNat n, rest) else none

def readEscape : List Char → Option (Char × List Char)
  | 'b' :: rest => some ('\x08', rest)
  | 't' :: rest => some ('\t', rest)
  | 'n' :: rest => some ('\n', rest)
  | 'f' :: rest => some ('\x0c', rest)
  | 'r' :: rest => some ('\r', rest)
  | '"' :: rest => some ('"', rest)
  | '\\' :: rest => some ('\\', rest)
  | 'u' :: rest => codePoint? 4 rest
  | 'U' :: rest => codePoint? 8 rest
  | _ => none

def readBasic : (fuel : Nat) → List Char → Option (List Char × List Char)
  | 0, _ => none
  | _, [] => none
  | fuel + 1, '\\' :: rest => do
    let (c, rest) ← readEscape rest
    let (more, rest) ← readBasic fuel rest
    return (c :: more, rest)
  | fuel + 1, c :: rest =>
    if c == '"' then some ([], rest)
    else if isPrintable c then (readBasic fuel rest).map fun (more, rest) => (c :: more, rest)
    else none

def readLiteral : List Char → Option (List Char × List Char)
  | [] => none
  | c :: rest =>
    if c == '\'' then some ([], rest)
    else if isPrintable c then (readLiteral rest).map fun (more, rest) => (c :: more, rest)
    else none

/-- Closing quotes of a string over several lines: three, after one or two that belong to it. -/
def closing? (quote : Char) (cs : List Char) : Option (List Char × List Char) :=
  let run := cs.takeWhile (· == quote)
  if 3 ≤ run.length ∧ run.length ≤ 5 then some (run.drop 3, cs.dropWhile (· == quote))
  else if 5 < run.length then some (run.take 2, cs.drop 5)
  else none

/-- A backslash at the end of a line swallows blanks and line breaks up to the next character. -/
def skipLines : List Char → List Char
  | ' ' :: rest => skipLines rest
  | '\t' :: rest => skipLines rest
  | '\n' :: rest => skipLines rest
  | '\r' :: '\n' :: rest => skipLines rest
  | cs => cs

def endsLine (cs : List Char) : Bool := (newline? (skipSpace cs)).isSome

def readBasicLines : (fuel : Nat) → List Char → Option (List Char × List Char)
  | 0, _ => none
  | _, [] => none
  | fuel + 1, '\\' :: rest =>
    if endsLine rest then readBasicLines fuel (skipLines rest)
    else do
      let (c, rest) ← readEscape rest
      let (more, rest) ← readBasicLines fuel rest
      return (c :: more, rest)
  | fuel + 1, c :: rest =>
    match closing? '"' (c :: rest) with
    | some found => some found
    | none =>
      match newline? (c :: rest) with
      | some rest => (readBasicLines fuel rest).map fun (more, rest) => ('\n' :: more, rest)
      | none =>
        if isPrintable c then (readBasicLines fuel rest).map fun (more, rest) => (c :: more, rest) else none

def readLiteralLines : (fuel : Nat) → List Char → Option (List Char × List Char)
  | 0, _ => none
  | _, [] => none
  | fuel + 1, c :: rest =>
    match closing? '\'' (c :: rest) with
    | some found => some found
    | none =>
      match newline? (c :: rest) with
      | some rest => (readLiteralLines fuel rest).map fun (more, rest) => ('\n' :: more, rest)
      | none =>
        if isPrintable c then (readLiteralLines fuel rest).map fun (more, rest) => (c :: more, rest) else none

def dropFirstLine (cs : List Char) : List Char := (newline? cs).getD cs

def readString : List Char → Option (List Char × List Char)
  | '"' :: '"' :: '"' :: rest => readBasicLines (rest.length + 1) (dropFirstLine rest)
  | '\'' :: '\'' :: '\'' :: rest => readLiteralLines (rest.length + 1) (dropFirstLine rest)
  | '"' :: rest => readBasic (rest.length + 1) rest
  | '\'' :: rest => readLiteral rest
  | _ => none

def isBareKeyChar (c : Char) : Bool := c.isAlphanum || c == '_' || c == '-'

def readSimpleKey : List Char → Option (String × List Char)
  | '"' :: rest => (readBasic (rest.length + 1) rest).map fun (key, rest) => (String.ofList key, rest)
  | '\'' :: rest => (readLiteral rest).map fun (key, rest) => (String.ofList key, rest)
  | cs =>
    let key := cs.takeWhile isBareKeyChar
    if key.isEmpty then none else some (String.ofList key, cs.dropWhile isBareKeyChar)

def readKey : (fuel : Nat) → List Char → Option (List String × List Char)
  | 0, _ => none
  | fuel + 1, cs => do
    let (key, rest) ← readSimpleKey (skipSpace cs)
    match skipSpace rest with
    | '.' :: rest => do
      let (more, rest) ← readKey fuel rest
      return (key :: more, rest)
    | rest => return ([key], rest)

/-- Digits with single underscores between them. -/
def readDigits (isDigit : Char → Bool) : List Char → List Char × List Char
  | '_' :: d :: rest =>
    if isDigit d then
      let (more, rest) := readDigits isDigit rest
      (d :: more, rest)
    else ([], '_' :: d :: rest)
  | d :: rest =>
    if isDigit d then
      let (more, rest) := readDigits isDigit rest
      (d :: more, rest)
    else ([], d :: rest)
  | [] => ([], [])

def readDigits? (isDigit : Char → Bool) : List Char → Option (List Char × List Char)
  | d :: rest => if isDigit d then some (readDigits isDigit (d :: rest)) else none
  | [] => none

def readSign : List Char → List Char × List Char
  | '+' :: rest => (['+'], rest)
  | '-' :: rest => (['-'], rest)
  | cs => ([], cs)

def readDecimal (cs : List Char) : Option (List Char × List Char) := do
  let (sign, cs) := readSign cs
  match cs with
  | '0' :: rest => some (sign ++ ['0'], rest)
  | cs => do
    let (digits, rest) ← readDigits? Char.isDigit cs
    return (sign ++ digits, rest)

def readFraction : List Char → Option (List Char × List Char)
  | '.' :: rest => (readDigits? Char.isDigit rest).map fun (digits, rest) => ('.' :: digits, rest)
  | _ => none

def readExponent : List Char → Option (List Char × List Char)
  | c :: rest =>
    if c == 'e' || c == 'E' then do
      let (sign, rest) := readSign rest
      let (digits, rest) ← readDigits? Char.isDigit rest
      return ('e' :: sign ++ digits, rest)
    else none
  | [] => none

def isPositiveInfinity (x : Float) : Bool := !Number.Binary64.isFinite x && 0 < x

def floatOf (cs : List Char) : Option Value :=
  match Number.parse? (String.ofList cs) with
  | some x => if isPositiveInfinity x then none else some (.float x)
  | none => none

def wordAfter? (word : String) (cs : List Char) : Option (List Char) := afterPrefix? word.toList cs

def readSpecial (cs : List Char) : Option (Value × List Char) :=
  let (sign, rest) := readSign cs
  match wordAfter? "inf" rest with
  | some rest => some (.float (Number.infinity (sign == ['-'])), rest)
  | none => (wordAfter? "nan" rest).map fun rest => (.float Number.notANumber, rest)

def inWord (n : Int) : Option Value := if -(Int.pow 2 63) ≤ n ∧ n < Int.pow 2 63 then some (.int n) else none

def valueIn (radix : Nat) (digits : List Char) : Nat :=
  digits.foldl (fun n c => radix * n + (hexDigit? c).getD 0) 0

def isDigitIn (radix : Nat) (c : Char) : Bool := (hexDigit? c).any (· < radix)

def readRadix (radix : Nat) (cs : List Char) : Option (Value × List Char) := do
  let (digits, rest) ← readDigits? (isDigitIn radix) cs
  let v ← inWord (valueIn radix digits)
  return (v, rest)

def decimalValue (cs : List Char) : Int :=
  match cs with
  | '-' :: digits => -(valueIn 10 digits : Int)
  | '+' :: digits => valueIn 10 digits
  | digits => valueIn 10 digits

def readNumber (cs : List Char) : Option (Value × List Char) :=
  match cs with
  | '0' :: 'x' :: rest => readRadix 16 rest
  | '0' :: 'o' :: rest => readRadix 8 rest
  | '0' :: 'b' :: rest => readRadix 2 rest
  | _ =>
    match readDecimal cs with
    | none => readSpecial cs
    | some (whole, rest) =>
      match readExponent rest with
      | some (exponent, rest) => (floatOf (whole ++ exponent)).map fun v => (v, rest)
      | none =>
        match readFraction rest with
        | some (fraction, rest) =>
          let (exponent, rest) := (readExponent rest).getD ([], rest)
          (floatOf (whole ++ fraction ++ exponent)).map fun v => (v, rest)
        | none => (inWord (decimalValue whole)).map fun v => (v, rest)

def readField (count low high : Nat) (cs : List Char) : Option (Nat × List Char) := do
  let digits := cs.take count
  if digits.length < count then none
  else do
    let n ← digitsValue? digits
    if low ≤ n ∧ n ≤ high then some (n, cs.drop count) else none

def afterMark (mark : Char) : List Char → Option (List Char)
  | c :: rest => if c == mark then some rest else none
  | [] => none

def readDate (cs : List Char) : Option (List Char) := do
  let (year, rest) ← readField 4 0 9999 cs
  let (month, rest) ← readField 2 1 12 (← afterMark '-' rest)
  let (_, rest) ← readField 2 1 (Calendar.daysInMonth year month) (← afterMark '-' rest)
  return rest

def skipFraction : List Char → Option (List Char)
  | '.' :: d :: rest => if d.isDigit then some (rest.dropWhile Char.isDigit) else none
  | '.' :: [] => none
  | cs => some cs

def readTime (cs : List Char) : Option (List Char) := do
  let (_, rest) ← readField 2 0 23 cs
  let (_, rest) ← readField 2 0 59 (← afterMark ':' rest)
  let (_, rest) ← readField 2 0 60 (← afterMark ':' rest)
  skipFraction rest

def readOffset : List Char → Option (List Char)
  | 'Z' :: rest => some rest
  | 'z' :: rest => some rest
  | c :: rest =>
    if c == '+' || c == '-' then do
      let (_, rest) ← readField 2 0 23 rest
      let (_, rest) ← readField 2 0 59 (← afterMark ':' rest)
      return rest
    else some (c :: rest)
  | [] => some []

def startsDate (cs : List Char) : Bool :=
  (cs.take 4).length == 4 && (cs.take 4).all Char.isDigit && (cs.drop 4).head? == some '-'

def startsTime (cs : List Char) : Bool :=
  (cs.take 2).length == 2 && (cs.take 2).all Char.isDigit && (cs.drop 2).head? == some ':'

def readMoment (cs : List Char) : Option (List Char) := do
  let rest ← readDate cs
  match rest with
  | c :: tail =>
    if (c == 'T' || c == 't' || c == ' ') && startsTime tail then do readOffset (← readTime tail) else some rest
  | [] => some []

def dateKey : String := "$date"

def dateValue (cs rest : List Char) : Value :=
  .map [(.text dateKey, .text (String.ofList (cs.take (cs.length - rest.length))))]

def readDigitsFirst (cs : List Char) : Option (Value × List Char) :=
  if startsDate cs then (readMoment cs).map fun rest => (dateValue cs rest, rest)
  else if startsTime cs then (readTime cs).map fun rest => (dateValue cs rest, rest)
  else readNumber cs

def readScalar (cs : List Char) : Option (Value × List Char) :=
  match cs with
  | [] => none
  | c :: _ =>
    if c == '"' || c == '\'' then (readString cs).map fun (s, rest) => (.text (String.ofList s), rest)
    else if c.isDigit then readDigitsFirst cs
    else if c == '+' || c == '-' || c == 'i' || c == 'n' then readNumber cs
    else
      match wordAfter? "true" cs with
      | some rest => some (.bool true, rest)
      | none => (wordAfter? "false" cs).map fun rest => (.bool false, rest)

end ShelfQuery.Data.Toml
