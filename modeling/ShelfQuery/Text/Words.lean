import ShelfQuery.Text.Classes

set_option autoImplicit false

namespace ShelfQuery.Text

def trimStart (cs : List Char) : List Char := cs.dropWhile isBlank

def trimEnd (cs : List Char) : List Char := (cs.reverse.dropWhile isBlank).reverse

def trim (cs : List Char) : List Char := trimEnd (trimStart cs)

def trimString (s : String) : String := String.ofList (trim s.toList)

/-- Splits at white space; `word` holds the characters of the current word, last first. -/
def wordsFrom : (word : List Char) → List Char → List (List Char)
  | [], [] => []
  | word, [] => [word.reverse]
  | word, c :: rest =>
    if isBlank c then
      match word with
      | [] => wordsFrom [] rest
      | _ => word.reverse :: wordsFrom [] rest
    else wordsFrom (c :: word) rest

def words (cs : List Char) : List (List Char) := wordsFrom [] cs

def lowerAscii (c : Char) : Char := if c.isUpper then Char.ofNat (c.toNat + 32) else c

def lower (s : String) : String := String.ofList (s.toList.map lowerAscii)

def sameIgnoringCase (a b : String) : Bool := a.toList.map lowerAscii == b.toList.map lowerAscii

def afterPrefix? : (part text : List Char) → Option (List Char)
  | [], rest => some rest
  | _ :: _, [] => none
  | p :: part, c :: rest => if p = c then afterPrefix? part rest else none

def startsWith (part text : List Char) : Bool := (afterPrefix? part text).isSome

def occursIn (part : List Char) : (text : List Char) → Bool
  | [] => part.isEmpty
  | c :: rest => startsWith part (c :: rest) || occursIn part rest

def contains (text part : String) : Bool := occursIn part.toList text.toList

def splitFirst? (part : List Char) : (text : List Char) → Option (List Char × List Char)
  | [] => if part.isEmpty then some ([], []) else none
  | c :: rest =>
    match afterPrefix? part (c :: rest) with
    | some after => some ([], after)
    | none => (splitFirst? part rest).map fun (before, after) => (c :: before, after)

def splitLast? (part text : List Char) : Option (List Char × List Char) :=
  (splitFirst? part.reverse text.reverse).map fun (after, before) => (before.reverse, after.reverse)

def join (sep : String) : List String → String
  | [] => ""
  | [s] => s
  | s :: rest => s ++ sep ++ join sep rest

def fill (count : Nat) (c : Char) : String := String.ofList (List.replicate count c)

def zeros (count : Nat) : String := fill count '0'

def padded (width n : Nat) : String :=
  let digits := toString n
  zeros (width - digits.length) ++ digits

def digitsValue? (cs : List Char) : Option Nat :=
  if cs.isEmpty || !cs.all Char.isDigit then none
  else some (cs.foldl (fun n c => n * 10 + (c.toNat - '0'.toNat)) 0)

/-- Lines end at a line feed, with or without a carriage return before it. The last line may lack
its end, and no empty line follows the last end. -/
def linesFrom : (line : List Char) → List Char → List (List Char)
  | [], [] => []
  | line, [] => [line.reverse]
  | line, '\n' :: rest =>
    (match line with
      | '\r' :: earlier => earlier.reverse
      | _ => line.reverse) :: linesFrom [] rest
  | line, c :: rest => linesFrom (c :: line) rest

def lines (s : String) : List String := (linesFrom [] s.toList).map String.ofList

/-- Order of texts by their UTF-8 bytes, which is the order by code points. -/
def before (a b : List Char) : Bool :=
  match a, b with
  | _, [] => false
  | [], _ :: _ => true
  | x :: a, y :: b => x.toNat < y.toNat || (x == y && before a b)

end ShelfQuery.Text
