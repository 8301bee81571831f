import ShelfQuery.Calendar.Date

set_option autoImplicit false

/-!
# Date and time of day

Nanoseconds from one thousand million up belong to a leap second, which follows the second it is attached to. Moving a
moment by whole seconds leaves the leap second.
-/

namespace ShelfQuery.Calendar

def secondsPerDay : Nat := 86400

def nanosPerSecond : Nat := 1000000000

structure Time where
  second : Nat
  nano : Nat
  second_lt : second < secondsPerDay
  nano_lt : nano < 2 * nanosPerSecond
  deriving DecidableEq

namespace Time

def midnight : Time := ⟨0, 0, by decide, by decide⟩

/-- One microsecond before the next midnight. -/
def lastMoment : Time := ⟨86399, 999999000, by decide, by decide⟩

/-- A time from its parts; second 60 is the leap second after second 59. -/
def of? (hour minute second nano : Nat) : Option Time :=
  if hour < 24 ∧ minute < 60 ∧ second ≤ 60 ∧ nano < nanosPerSecond then
    let whole := min second 59
    let extra := if second = 60 then nanosPerSecond else 0
    if h : hour * 3600 + minute * 60 + whole < secondsPerDay ∧ nano + extra < 2 * nanosPerSecond then
      some ⟨hour * 3600 + minute * 60 + whole, nano + extra, h.1, h.2⟩
    else none
  else none

def addSeconds (t : Time) (n : Int) : Time × Int :=
  if n = 0 then (t, 0)
  else
    let leap := nanosPerSecond ≤ t.nano
    let start : Int := if leap ∧ n < 0 then t.second + 1 else t.second
    let total := start + n
    (⟨(total % secondsPerDay).toNat, t.nano % nanosPerSecond,
        by
          have h1 := Int.emod_nonneg total (b := (secondsPerDay : Int)) (by decide)
          have h2 := Int.emod_lt_of_pos total (b := (secondsPerDay : Int)) (by decide)
          omega,
        by
          have h := Nat.mod_lt t.nano (y := nanosPerSecond) (by decide)
          omega⟩,
      total / secondsPerDay)

end Time

structure DateTime where
  date : Date
  time : Time
  deriving DecidableEq

namespace DateTime

def addSeconds? (m : DateTime) (n : Int) : Option DateTime :=
  let (time, days) := m.time.addSeconds n
  (m.date.addDays? days).map fun date => ⟨date, time⟩

def addMonths? (m : DateTime) (n : Int) : Option DateTime :=
  (m.date.addMonths? n).map fun date => ⟨date, m.time⟩

def startOfDay (d : Date) : DateTime := ⟨d, .midnight⟩

def endOfDay (d : Date) : DateTime := ⟨d, .lastMoment⟩

/-- A moment exactly at midnight stands for its whole day and moves to its end. -/
def wholeDayEnd (m : DateTime) : DateTime := if m.time = .midnight then endOfDay m.date else m

def before (a b : DateTime) : Bool :=
  a.date.before b.date ||
    (a.date = b.date && (a.time.second < b.time.second ||
      (a.time.second == b.time.second && a.time.nano < b.time.nano)))

end DateTime

end ShelfQuery.Calendar
