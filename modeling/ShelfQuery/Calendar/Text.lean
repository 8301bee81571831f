import ShelfQuery.Calendar.DateTime
import ShelfQuery.Text.Words

set_option autoImplicit false

namespace ShelfQuery.Calendar

open ShelfQuery.Text

/-- Four digits at least; a sign outside 0 to 9999. -/
def yearText (year : Int) : String :=
  if year < 0 then "-" ++ padded 4 year.natAbs
  else if 9999 < year then "+" ++ padded 4 year.natAbs
  else padded 4 year.natAbs

def Date.text (d : Date) : String :=
  yearText d.year ++ "-" ++ padded 2 d.month ++ "-" ++ padded 2 d.day

def Time.text (t : Time) : String :=
  padded 2 (t.second / 3600) ++ ":" ++ padded 2 (t.second / 60 % 60) ++ ":" ++
    padded 2 (t.second % 60 + t.nano / nanosPerSecond) ++
    (if t.nano = 0 then "" else "." ++ padded 6 (t.nano % nanosPerSecond / 1000))

def DateTime.text (m : DateTime) : String := m.date.text ++ " " ++ m.time.text

inductive DateUnit where
  | year | month | day | hour | minute | second

inductive Piece where
  | number (unit : DateUnit)
  | mark (c : Char)
  | gap
  | fraction

structure Fields where
  year : Int := 0
  month : Nat := 0
  day : Nat := 0
  hour : Nat := 0
  minute : Nat := 0
  second : Nat := 0
  nano : Nat := 0

/-- Digits from the front, at most `limit` of them, with their value; none is refused. -/
def readNumber (limit : Nat) (cs : List Char) : Option (Nat × List Char) :=
  let digits := (cs.take limit).takeWhile Char.isDigit
  (digitsValue? digits).map fun n => (n, cs.drop digits.length)

/-- A year has at most four digits unless a sign stands before it. -/
def readYear (cs : List Char) : Option (Int × List Char) :=
  match cs with
  | '-' :: rest => (readNumber rest.length rest).map fun (n, rest) => (-(n : Int), rest)
  | '+' :: rest => (readNumber rest.length rest).map fun (n, rest) => ((n : Int), rest)
  | _ => (readNumber 4 cs).map fun (n, rest) => ((n : Int), rest)

def Fields.set (f : Fields) (unit : DateUnit) (n : Nat) : Fields :=
  match unit with
  | .year => { f with year := n }
  | .month => { f with month := n }
  | .day => { f with day := n }
  | .hour => { f with hour := n }
  | .minute => { f with minute := n }
  | .second => { f with second := n }

def nanosOf (digits : List Char) : Nat :=
  let kept := digits.take 9
  kept.foldl (fun n c => n * 10 + (c.toNat - '0'.toNat)) 0 * Nat.pow 10 (9 - kept.length)

def readPiece (f : Fields) (piece : Piece) (cs : List Char) : Option (Fields × List Char) :=
  match piece with
  | .mark c =>
    match cs with
    | d :: rest => if c = d then some (f, rest) else none
    | [] => none
  | .gap => some (f, trimStart cs)
  | .fraction =>
    match cs with
    | '.' :: rest =>
      let digits := rest.takeWhile Char.isDigit
      if digits.isEmpty then none
      else some ({ f with nano := nanosOf digits }, rest.drop digits.length)
    | _ => some (f, cs)
  | .number .year => (readYear (trimStart cs)).map fun (n, rest) => ({ f with year := n }, rest)
  | .number unit => (readNumber 2 (trimStart cs)).map fun (n, rest) => (f.set unit n, rest)

def readPattern : List Piece → Fields → List Char → Option Fields
  | [], f, cs => if cs.isEmpty then some f else none
  | piece :: pieces, f, cs =>
    match readPiece f piece cs with
    | some (f, rest) => readPattern pieces f rest
    | none => none

def dashedDate : List Piece := [.number .year, .mark '-', .number .month, .mark '-', .number .day]

def monthFirstDate : List Piece := [.number .month, .mark '/', .number .day, .mark '/', .number .year]

def slashedDate : List Piece := [.number .year, .mark '/', .number .month, .mark '/', .number .day]

def shortTime : List Piece := [.number .hour, .mark ':', .number .minute]

def longTime : List Piece := shortTime ++ [.mark ':', .number .second, .fraction]

def Fields.date? (f : Fields) : Option Date := Date.of? f.year f.month f.day

def Fields.dateTime? (f : Fields) : Option DateTime := do
  let date ← f.date?
  let time ← Time.of? f.hour f.minute f.second f.nano
  pure ⟨date, time⟩

def Date.ofPattern? (pattern : List Piece) (cs : List Char) : Option Date :=
  (readPattern pattern {} cs).bind Fields.date?

def DateTime.ofPattern? (pattern : List Piece) (cs : List Char) : Option DateTime :=
  (readPattern pattern {} cs).bind Fields.dateTime?

def dateTimePatterns : List (List Piece) :=
  [dashedDate ++ .gap :: longTime, dashedDate ++ .mark 'T' :: longTime,
    dashedDate ++ .gap :: shortTime, dashedDate ++ .mark 'T' :: shortTime]

def datePatterns : List (List Piece) := [dashedDate, monthFirstDate, slashedDate]

/-- A date or a moment in one of the written forms; a date stands for its midnight. -/
def absolute? (cs : List Char) : Option DateTime :=
  match dateTimePatterns.findSome? fun pattern => DateTime.ofPattern? pattern cs with
  | some m => some m
  | none => (datePatterns.findSome? fun pattern => Date.ofPattern? pattern cs).map DateTime.startOfDay

end ShelfQuery.Calendar
