import ShelfQuery.Calendar.Text

set_option autoImplicit false

namespace ShelfQuery.Calendar

open ShelfQuery.Text

inductive DateError where
  | unparseable (text : String)
  | unknownOffset (offset : String)
  | unknownUnits (units : String)
  | outOfRange
  | overflow
  deriving DecidableEq

def DateError.message : DateError → String
  | .unparseable text => "Can't convert '" ++ text ++ "' to a date."
  | .unknownOffset offset => "Unknown intelligent date offset: " ++ offset
  | .unknownUnits units => "Unknown intelligent date units: " ++ units
  | .outOfRange => "date out of range"
  | .overflow => "arithmetic overflow"

def wordCount? (word : String) : Option Nat :=
  if word = "a" || word = "an" then some 1
  else
    let digits :=
      match word.toList with
      | '+' :: rest => rest
      | cs => cs
    (digitsValue? digits).filter (· < Nat.pow 2 32)

def dropPlural (word : String) : String :=
  match word.toList.reverse with
  | 's' :: rest => String.ofList rest.reverse
  | _ => word

/-- The moment `count` units before `now`. Twelve times the number of years has to fit 32 bits. -/
def beforeNow? (now : DateTime) (count : Nat) (unit : String) : Option DateTime :=
  let back (seconds : Nat) : Option DateTime := now.addSeconds? (-((count * seconds : Nat) : Int))
  match unit with
  | "second" => back 1
  | "minute" => back 60
  | "hour" => back 3600
  | "day" => back 86400
  | "week" => back 604800
  | "month" => now.addMonths? (-(count : Int))
  | "year" => if count * 12 < Nat.pow 2 32 then now.addMonths? (-((count * 12 : Nat) : Int)) else none
  | _ => none

def span? (cs : List Char) (now : DateTime) : Option DateTime :=
  match (words (cs.map lowerAscii)).map String.ofList with
  | [count, unit] => (wordCount? count).bind fun n => beforeNow? now n (dropPlural unit)
  | [count, unit, "ago"] => (wordCount? count).bind fun n => beforeNow? now n (dropPlural unit)
  | _ => none

def readMoment (text : String) (now : DateTime) : Except DateError DateTime :=
  let cs := trim text.toList
  let shift (seconds : Int) : Except DateError DateTime :=
    match now.addSeconds? seconds with
    | some m => .ok m
    | none => .error .overflow
  match String.ofList (cs.map lowerAscii) with
  | "now" => .ok now
  | "today" => .ok now
  | "yesterday" => shift (-86400)
  | "tomorrow" => shift 86400
  | _ =>
    match absolute? cs with
    | some m => .ok m
    | none =>
      match span? cs now with
      | some m => .ok m
      | none => .error (.unparseable text)

/-- How far a date is moved. Years and months are 32-bit words, days a signed 64-bit word. -/
inductive Step where
  | years (n : UInt32)
  | months (n : UInt32)
  | days (n : Int)

/-- The longest step in days that the clock can measure, in milliseconds of a signed 64-bit word. -/
def longestStep : Int := (Int.pow 2 63 - 1) / 86400000

inductive Direction where
  | back | stay | forward
  deriving DecidableEq

def Direction.ofOffset? : String → Option Direction
  | "prior" => some .back
  | "previous" => some .back
  | "last" => some .back
  | "next" => some .forward
  | "current" => some .stay
  | "this" => some .stay
  | _ => none

/-- Moves a date by a step, forward for `sign = 1` and back for `sign = -1`. Twelve times a number of years has to fit
32 bits, and a number of days the clock. -/
def Date.move (d : Date) (sign : Int) : Step → Except DateError Date
  | .years n =>
    if UInt32.size ≤ 12 * n.toNat then .error .overflow
    else ofOption (d.addMonths? (sign * (12 * n.toNat)))
  | .months n => ofOption (d.addMonths? (sign * n.toNat))
  | .days n =>
    if n < -longestStep ∨ longestStep < n then .error .overflow
    else ofOption (d.addDays? (sign * n))
where
  ofOption : Option Date → Except DateError Date
    | some d => .ok d
    | none => .error .outOfRange

def offsetDate (d : Date) (offset : String) (step : Step) : Except DateError Date :=
  match Direction.ofOffset? offset with
  | some .back => d.move (-1) step
  | some .forward => d.move 1 step
  | some .stay => .ok d
  | none => .error (.unknownOffset offset)

def dateOf (year : Int) (month day : Nat) : Except DateError Date :=
  match Date.of? year month day with
  | some d => .ok d
  | none => .error .outOfRange

def endOfMonth (first : Date) : Except DateError Date :=
  match (first.addMonths? 1).bind (·.addDays? (-1)) with
  | some d => .ok d
  | none => .error .outOfRange

/-- The stretches of time around the date `d` moved by an offset: whole years, quarters and months,
a year or month up to the date, or the date alone. -/
def dateRange (offset units : String) (d : Date) : Except DateError (Date × Date) := do
  let offset := lower offset
  match lower units with
  | "year" =>
    let d ← offsetDate d offset (.years 1)
    return (← dateOf d.year 1 1, ← dateOf d.year 12 31)
  | "ytd" =>
    let d ← offsetDate d offset (.years 1)
    return (← dateOf d.year 1 1, d)
  | "qtr" =>
    let d ← offsetDate d offset (.months 3)
    let quarter := (d.month - 1) / 3
    let start ← dateOf d.year (quarter * 3 + 1) 1
    let final ← dateOf d.year (quarter * 3 + 3) 1
    return (start, ← endOfMonth final)
  | "month" =>
    let d ← offsetDate d offset (.months 1)
    let start ← dateOf d.year d.month 1
    return (start, ← endOfMonth start)
  | "mtd" =>
    let d ← offsetDate d offset (.months 1)
    return (← dateOf d.year d.month 1, d)
  | "day" =>
    let d ← offsetDate d offset (.days 1)
    return (d, d)
  | units => throw (.unknownUnits units)

end ShelfQuery.Calendar
