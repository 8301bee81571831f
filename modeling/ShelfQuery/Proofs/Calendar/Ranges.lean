import ShelfQuery.Proofs.Calendar.Shifting
import ShelfQuery.Proofs.Calendar.Stretches
import ShelfQuery.Proofs.Data.Except

set_option autoImplicit false

/-!
# Ranges of dates

The ranges tile the calendar as the stretches do, but the last quarter and the last month are refused: their end is
looked for in the month after it.
-/

namespace ShelfQuery.Calendar

open ShelfQuery.Text

def Direction.sign : Direction → Int
  | .back => -1
  | .stay => 0
  | .forward => 1

def Period.step : Period → Step
  | .year => .years 1
  | .quarter => .months 3
  | .month => .months 1
  | .day => .days 1

theorem ofOption_eq_ok_iff {found : Option Date} {d : Date} : Date.move.ofOption found = .ok d ↔ found = some d := by
  cases found <;> simp [Date.move.ofOption]

section

variable {p : Period} {offset : String} {dir : Direction} {d e x : Date}

theorem Period.Counts.offsetDate_iff {k : Nat} (h : p.Counts k) (hdir : Direction.ofOffset? offset = some dir) :
    offsetDate d offset p.step = .ok e ↔
      e.monthIndex = d.monthIndex + dir.sign * k ∧ e.day = min d.day (monthLength e.monthIndex) := by
  have hmove (sign : Int) : d.move sign p.step = .ok e ↔
      e.monthIndex = d.monthIndex + sign * k ∧ e.day = min d.day (monthLength e.monthIndex) := by
    have hmonths : d.move sign p.step = Date.move.ofOption (d.addMonths? (sign * k)) := by cases h <;> rfl
    rw [hmonths, ofOption_eq_ok_iff, Date.addMonths?_eq_some_iff, Date.monthsLater_iff]
    exact and_congr_right fun hmonth => by rw [hmonth]
  unfold offsetDate
  rw [hdir]
  cases dir with
  | back => exact hmove (-1)
  | forward => exact hmove 1
  | stay =>
    have hday := d.day_bounds
    constructor
    · intro hok
      cases hok
      exact ⟨by simp [Direction.sign], by omega⟩
    · rintro ⟨hmonth, hday'⟩
      have hsame : e.monthIndex = d.monthIndex := by simpa [Direction.sign] using hmonth
      rw [hsame] at hday'
      exact congrArg Except.ok (Date.ext_monthIndex hsame.symm (by omega))

theorem offsetDate_day_iff (hdir : Direction.ofOffset? offset = some dir) :
    offsetDate d offset Period.day.step = .ok e ↔ e.toDays = d.toDays + dir.sign := by
  have hmove (sign : Int) : d.move sign (.days 1) = .ok e ↔ e.toDays = d.toDays + sign := by
    rw [move_days d sign (by decide), ofOption_eq_ok_iff, Date.addDays?_eq_some_iff, Date.daysLater_iff, Int.mul_one]
  unfold offsetDate
  rw [hdir]
  cases dir with
  | back => exact hmove (-1)
  | forward => exact hmove 1
  | stay =>
    constructor
    · intro hok
      cases hok
      exact (Int.add_zero _).symm
    · intro hdays
      exact congrArg Except.ok (Date.toDays_inj (hdays.trans (Int.add_zero _)).symm)

/-- A shifted date lies in the stretch before, in the same or in the next one, whatever its day is held to. -/
theorem Period.index_of_offsetDate (hdir : Direction.ofOffset? offset = some dir)
    (h : offsetDate d offset p.step = .ok e) : p.index e = p.index d + dir.sign := by
  rcases p.counts_or_day with ⟨k, hk⟩ | rfl
  · have hmonth := ((hk.offsetDate_iff hdir).mp h).1
    rw [hk.index_eq, hk.index_eq, hmonth]
    cases hk <;> omega
  · exact (offsetDate_day_iff hdir).mp h

theorem Period.exists_offsetDate (hdir : Direction.ofOffset? offset = some dir)
    (h : p.index x = p.index d + dir.sign) : ∃ e, offsetDate d offset p.step = .ok e := by
  rcases p.counts_or_day with ⟨k, hk⟩ | rfl
  · have hyear := x.isDay.1
    have hday := d.day_bounds
    have hlength := monthLength_bounds (d.monthIndex + dir.sign * k)
    rw [Date.year_eq] at hyear
    rw [hk.index_eq, hk.index_eq] at h
    obtain ⟨e, hmonth, hday'⟩ := Date.exists_monthIndex (d.monthIndex + dir.sign * k)
      (min d.day (monthLength (d.monthIndex + dir.sign * k))) (by cases hk <;> omega) (by omega)
    exact ⟨e, (hk.offsetDate_iff hdir).mpr ⟨hmonth, hmonth ▸ hday'⟩⟩
  · exact ⟨x, (offsetDate_day_iff hdir).mpr h⟩

end

def lastDay : Date := ⟨lastYear, 12, 31, by decide⟩

def Period.stretch (p : Period) (e : Date) : Except DateError (Date × Date) :=
  match p with
  | .year => do return (← dateOf e.year 1 1, ← dateOf e.year 12 31)
  | .quarter => do
    let start ← dateOf e.year ((e.month - 1) / 3 * 3 + 1) 1
    let final ← dateOf e.year ((e.month - 1) / 3 * 3 + 3) 1
    return (start, ← endOfMonth final)
  | .month => do
    let start ← dateOf e.year e.month 1
    return (start, ← endOfMonth start)
  | .day => return (e, e)

theorem dateRange_eq {p : Period} {units : String} (hunits : lower units = p.name) (offset : String) (d : Date) :
    dateRange offset units d = offsetDate d (lower offset) p.step >>= p.stretch := by
  unfold dateRange
  rw [hunits]
  cases p <;> rfl

theorem dateOf_eq_ok_iff {year : Int} {month day : Nat} {d : Date} :
    dateOf year month day = .ok d ↔ d.year = year ∧ d.month = month ∧ d.day = day := by
  rw [← Date.of?_eq_some_iff]
  unfold dateOf
  cases Date.of? year month day <;> simp

theorem endOfMonth_eq_ok_iff_exists {a b : Date} :
    endOfMonth a = .ok b ↔ ∃ c, a.MonthsLater 1 c ∧ b.Next c := by
  have hfound : endOfMonth a = .ok b ↔ (a.addMonths? 1).bind (·.addDays? (-1)) = some b := by
    unfold endOfMonth
    cases (a.addMonths? 1).bind (·.addDays? (-1)) <;> simp
  rw [hfound, Option.bind_eq_some_iff]
  refine exists_congr fun c => ?_
  rw [Date.addMonths?_eq_some_iff, Date.addDays?_eq_some_iff, Date.daysLater_iff, Date.next_iff]
  exact and_congr_right fun _ => by omega

theorem eq_lastDay_of_monthIndex {b : Date} (hmonth : lastDay.monthIndex ≤ b.monthIndex)
    (hday : b.day = monthLength b.monthIndex) : b = lastDay := by
  have hyear := b.isDay.1.2
  have hlast : lastDay.monthIndex = lastYear * 12 + 11 := rfl
  rw [Date.year_eq] at hyear
  have hsame : b.monthIndex = lastDay.monthIndex := by omega
  refine Date.ext_monthIndex hsame ?_
  rw [hday, hsame]
  decide

/-- The end of a month is found unless the month is the last of the calendar. -/
theorem endOfMonth_eq_ok_iff {a b : Date} (ha : a.day = 1) :
    endOfMonth a = .ok b ↔ b.monthIndex = a.monthIndex ∧ b.day = monthLength b.monthIndex ∧ b ≠ lastDay := by
  have hlast : lastDay.monthIndex = lastYear * 12 + 11 := rfl
  rw [endOfMonth_eq_ok_iff_exists]
  constructor
  · rintro ⟨c, hlater, hnext⟩
    obtain ⟨hmonth, hday⟩ := Date.monthsLater_iff.mp hlater
    have hyear := c.isDay.1.2
    have hb := b.day_bounds
    rw [Date.year_eq] at hyear
    rcases Date.next_iff_monthIndex.mp hnext with ⟨-, hmid⟩ | ⟨hend, -, hmonth'⟩
    · omega
    · refine ⟨by omega, hend, fun heq => ?_⟩
      rw [heq] at hmonth'
      omega
  · rintro ⟨hmonth, hday, hne⟩
    have hlt : b.monthIndex < lastDay.monthIndex := by
      by_contra hge
      exact hne (eq_lastDay_of_monthIndex (Int.not_lt.mp hge) hday)
    have hyear := b.isDay.1.1
    have hlength := monthLength_bounds (b.monthIndex + 1)
    rw [Date.year_eq] at hyear
    obtain ⟨c, hc, hfirst⟩ := Date.exists_monthIndex (b.monthIndex + 1) 1 (by omega) (by omega)
    refine ⟨c, Date.monthsLater_iff.mpr ⟨by omega, ?_⟩, Date.next_iff_monthIndex.mpr (.inr ⟨hday, hfirst, hc⟩)⟩
    rw [← hmonth]
    omega

theorem dateOf_first_iff {year : Int} {n : Nat} {a : Date} (hn : n < 12) :
    dateOf year (n + 1) 1 = .ok a ↔ a.monthIndex = year * 12 + n ∧ a.day = 1 := by
  have hmonth := a.isDay.2.1
  rw [dateOf_eq_ok_iff]
  unfold Date.monthIndex
  omega

theorem dateOf_last_iff {year : Int} {b : Date} :
    dateOf year 12 31 = .ok b ↔ b.monthIndex = year * 12 + 11 ∧ b.day = monthLength b.monthIndex := by
  have hmonth := b.isDay.2.1
  have hindex : b.monthIndex = year * 12 + 11 ↔ b.year = year ∧ b.month = 12 := by
    unfold Date.monthIndex
    omega
  rw [dateOf_eq_ok_iff, hindex, and_assoc, ← Date.daysInMonth_eq]
  refine and_congr_right fun _ => and_congr_right fun hmonth => ?_
  rw [hmonth]
  rfl

theorem Date.exists_first (b : Date) : ∃ c : Date, c.monthIndex = b.monthIndex ∧ c.day = 1 := by
  have hyear := b.isDay.1
  have hlength := monthLength_bounds b.monthIndex
  rw [Date.year_eq] at hyear
  exact Date.exists_monthIndex _ _ hyear (by omega)

namespace Period

variable {p : Period} {e a b : Date}

/-- The stretches whose end is looked for beyond the calendar. -/
def Missed (p : Period) (b : Date) : Prop := (p = .quarter ∨ p = .month) ∧ b = lastDay

def firstDay (p : Period) (e : Date) : Except DateError Date :=
  match p with
  | .year => dateOf e.year 1 1
  | .quarter => dateOf e.year ((e.month - 1) / 3 * 3 + 1) 1
  | .month => dateOf e.year e.month 1
  | .day => .ok e

theorem Counts.firstDay_eq_ok_iff {k : Nat} (h : Counts p k) : p.firstDay e = .ok a ↔ p.StartsAt (p.index e) a := by
  have hmonth := e.isDay.2.1
  rw [h.startsAt_iff]
  cases h with
  | year =>
    refine (dateOf_first_iff (n := 0) (by decide)).trans ?_
    unfold index
    dsimp only
    omega
  | quarter =>
    refine (dateOf_first_iff (by omega)).trans ?_
    unfold index
    dsimp only
    omega
  | month =>
    have hfirst : dateOf e.year (e.month - 1 + 1) 1 = .ok a ↔ _ := dateOf_first_iff (by omega)
    rw [Nat.sub_add_cancel hmonth.1] at hfirst
    refine hfirst.trans ?_
    unfold index
    dsimp only
    omega

theorem stretch_year_iff :
    Period.year.stretch e = .ok (a, b) ↔
      Period.year.StartsAt (Period.year.index e) a ∧ Period.year.EndsAt (Period.year.index e) b := by
  change (do return (← Period.year.firstDay e, ← dateOf e.year 12 31)) = _ ↔ _
  rw [pair_eq_ok_iff, Counts.year.firstDay_eq_ok_iff, dateOf_last_iff, Counts.year.endsAt_iff]
  refine and_congr_right fun _ => ?_
  unfold index
  dsimp only
  omega

theorem stretch_quarter_iff :
    Period.quarter.stretch e = .ok (a, b) ↔ Period.quarter.StartsAt (Period.quarter.index e) a ∧
      Period.quarter.EndsAt (Period.quarter.index e) b ∧ b ≠ lastDay := by
  have hmonth := e.isDay.2.1
  have hfinal {c : Date} : dateOf e.year ((e.month - 1) / 3 * 3 + 2 + 1) 1 = .ok c ↔
      c.monthIndex = 3 * Period.quarter.index e + (3 - 1) ∧ c.day = 1 := by
    refine (dateOf_first_iff (by omega)).trans ?_
    unfold index
    dsimp only
    omega
  have hstretch : Period.quarter.stretch e = .ok (a, b) ↔ Period.quarter.firstDay e = .ok a ∧
      ∃ c, dateOf e.year ((e.month - 1) / 3 * 3 + 2 + 1) 1 = .ok c ∧ endOfMonth c = .ok b := by
    constructor
    · intro h
      obtain ⟨start, hstart, h⟩ := bind_ok h
      obtain ⟨c, hc, h⟩ := bind_ok h
      obtain ⟨final, hfinal, h⟩ := bind_ok h
      cases h
      exact ⟨hstart, c, hc, hfinal⟩
    · rintro ⟨hstart, c, hc, hfinal⟩
      exact bind_eq_ok_iff.mpr ⟨a, hstart, bind_eq_ok_iff.mpr ⟨c, hc, bind_eq_ok_iff.mpr ⟨b, hfinal, rfl⟩⟩⟩
  rw [hstretch, Counts.quarter.firstDay_eq_ok_iff, Counts.quarter.endsAt_iff]
  refine and_congr_right fun _ => ⟨?_, ?_⟩
  · rintro ⟨c, hc, hb⟩
    obtain ⟨hindex, hday⟩ := hfinal.mp hc
    obtain ⟨hsame, hend, hne⟩ := (endOfMonth_eq_ok_iff hday).mp hb
    exact ⟨⟨hsame.trans hindex, hend⟩, hne⟩
  · rintro ⟨⟨hindex, hend⟩, hne⟩
    obtain ⟨c, hc, hday⟩ := b.exists_first
    exact ⟨c, hfinal.mpr ⟨hc.trans hindex, hday⟩, (endOfMonth_eq_ok_iff hday).mpr ⟨hc.symm, hend, hne⟩⟩

theorem stretch_month_iff :
    Period.month.stretch e = .ok (a, b) ↔ Period.month.StartsAt (Period.month.index e) a ∧
      Period.month.EndsAt (Period.month.index e) b ∧ b ≠ lastDay := by
  have hstretch : Period.month.stretch e = .ok (a, b) ↔
      Period.month.firstDay e = .ok a ∧ endOfMonth a = .ok b := by
    constructor
    · intro h
      obtain ⟨start, hstart, h⟩ := bind_ok h
      obtain ⟨final, hfinal, h⟩ := bind_ok h
      cases h
      exact ⟨hstart, hfinal⟩
    · rintro ⟨hstart, hfinal⟩
      exact bind_eq_ok_iff.mpr ⟨a, hstart, bind_eq_ok_iff.mpr ⟨b, hfinal, rfl⟩⟩
  rw [hstretch, Counts.month.firstDay_eq_ok_iff, Counts.month.startsAt_iff, Counts.month.endsAt_iff]
  refine and_congr_right fun ha => ?_
  rw [endOfMonth_eq_ok_iff ha.2, ha.1, and_assoc]
  simp

theorem stretch_day_iff :
    Period.day.stretch e = .ok (a, b) ↔
      Period.day.StartsAt (Period.day.index e) a ∧ Period.day.EndsAt (Period.day.index e) b := by
  have hself (x : Date) (hx : Period.day.index x = Period.day.index e) : e.before x = false ∧ x.before e = false := by
    rw [Date.toDays_inj hx]
    exact ⟨Date.before_eq_false_iff.mpr (Int.le_refl _), Date.before_eq_false_iff.mpr (Int.le_refl _)⟩
  constructor
  · intro h
    cases h
    exact ⟨⟨rfl, fun x hx => (hself x hx).2⟩, ⟨rfl, fun x hx => (hself x hx).1⟩⟩
  · rintro ⟨ha, hb⟩
    rw [Date.toDays_inj ha.1, Date.toDays_inj hb.1]
    rfl

/-- A stretch is given from its first to its last date, but no quarter or month that ends with the calendar. -/
theorem stretch_eq_ok_iff :
    p.stretch e = .ok (a, b) ↔ p.StartsAt (p.index e) a ∧ p.EndsAt (p.index e) b ∧ ¬ p.Missed b := by
  have hnot (h : ¬ (p = .quarter ∨ p = .month)) : ¬ p.Missed b ↔ True := iff_true_intro fun hmissed => h hmissed.1
  have hsome (h : p = .quarter ∨ p = .month) : ¬ p.Missed b ↔ b ≠ lastDay :=
    not_congr (and_iff_right h)
  cases p with
  | year => rw [hnot (by decide), and_true, stretch_year_iff]
  | quarter => rw [hsome (by decide), stretch_quarter_iff]
  | month => rw [hsome (by decide), stretch_month_iff]
  | day => rw [hnot (by decide), and_true, stretch_day_iff]

/-- The name of the part of a stretch up to the date. -/
def toDate? : Period → Option String
  | .year => some "ytd"
  | .quarter => none
  | .month => some "mtd"
  | .day => none

end Period

section

variable {p : Period} {units offset : String} {dir : Direction} {d a b e x : Date} {r : Date × Date}

theorem dateRange_eq_ok_iff (hunits : lower units = p.name) (hdir : Direction.ofOffset? (lower offset) = some dir) :
    dateRange offset units d = .ok (a, b) ↔
      p.StartsAt (p.index d + dir.sign) a ∧ p.EndsAt (p.index d + dir.sign) b ∧ ¬ p.Missed b := by
  rw [dateRange_eq hunits, bind_eq_ok_iff]
  constructor
  · rintro ⟨e, he, hstretch⟩
    rw [← Period.index_of_offsetDate hdir he]
    exact Period.stretch_eq_ok_iff.mp hstretch
  · rintro ⟨ha, hb, hmissed⟩
    obtain ⟨e, he⟩ := Period.exists_offsetDate hdir ha.1
    rw [← Period.index_of_offsetDate hdir he] at ha hb
    exact ⟨e, he, Period.stretch_eq_ok_iff.mpr ⟨ha, hb, hmissed⟩⟩

theorem dateRange_toDate_iff (hunits : p.toDate? = some (lower units))
    (hdir : Direction.ofOffset? (lower offset) = some dir) :
    dateRange offset units d = .ok (a, e) ↔
      offsetDate d (lower offset) p.step = .ok e ∧ p.StartsAt (p.index d + dir.sign) a := by
  obtain ⟨k, hk⟩ : ∃ k, p.Counts k := by
    cases p with
    | year => exact ⟨12, .year⟩
    | quarter => cases hunits
    | month => exact ⟨1, .month⟩
    | day => cases hunits
  have hrange : dateRange offset units d =
      offsetDate d (lower offset) p.step >>= fun e => do return (← p.firstDay e, e) := by
    unfold dateRange
    cases p with
    | year =>
      rw [← Option.some.inj hunits]
      rfl
    | month =>
      rw [← Option.some.inj hunits]
      rfl
    | quarter | day => cases hunits
  rw [hrange, bind_eq_ok_iff]
  constructor
  · rintro ⟨e', he', hpair⟩
    obtain ⟨start, hstart, hpair⟩ := bind_ok hpair
    cases hpair
    rw [← Period.index_of_offsetDate hdir he']
    exact ⟨he', hk.firstDay_eq_ok_iff.mp hstart⟩
  · rintro ⟨he, ha⟩
    rw [← Period.index_of_offsetDate hdir he] at ha
    exact ⟨e, he, bind_eq_ok_iff.mpr ⟨a, hk.firstDay_eq_ok_iff.mpr ha, rfl⟩⟩

def OutOfRangeOnly {α : Type} (outcome : Except DateError α) : Prop := ∀ error, outcome = .error error → error = .outOfRange

theorem OutOfRangeOnly.bind {α β : Type} {outcome : Except DateError α} {f : α → Except DateError β}
    (h : OutOfRangeOnly outcome) (hf : ∀ x, OutOfRangeOnly (f x)) : OutOfRangeOnly (outcome >>= f) := by
  intro error herror
  cases outcome with
  | error e =>
    cases herror
    exact h _ rfl
  | ok x => exact hf x error herror

theorem outOfRangeOnly_ok {α : Type} (x : α) : OutOfRangeOnly (Except.ok x : Except DateError α) := by
  intro error herror
  cases herror

theorem outOfRangeOnly_ofOption (found : Option Date) : OutOfRangeOnly (Date.move.ofOption found) := by
  intro error herror
  cases found with
  | none =>
    cases herror
    rfl
  | some d => cases herror

theorem outOfRangeOnly_dateOf (year : Int) (month day : Nat) : OutOfRangeOnly (dateOf year month day) :=
  outOfRangeOnly_ofOption (Date.of? year month day)

theorem outOfRangeOnly_endOfMonth (d : Date) : OutOfRangeOnly (endOfMonth d) :=
  outOfRangeOnly_ofOption ((d.addMonths? 1).bind (·.addDays? (-1)))

theorem outOfRangeOnly_offsetDate (hdir : Direction.ofOffset? offset = some dir) :
    OutOfRangeOnly (offsetDate d offset p.step) := by
  have hmove (sign : Int) : OutOfRangeOnly (d.move sign p.step) := by
    cases p with
    | year | quarter | month => exact outOfRangeOnly_ofOption _
    | day =>
      change OutOfRangeOnly (d.move sign (.days 1))
      rw [move_days d sign (by decide)]
      exact outOfRangeOnly_ofOption _
  unfold offsetDate
  rw [hdir]
  cases dir with
  | back => exact hmove (-1)
  | stay => exact outOfRangeOnly_ok d
  | forward => exact hmove 1

theorem Period.outOfRangeOnly_stretch (p : Period) (e : Date) : OutOfRangeOnly (p.stretch e) := by
  cases p with
  | year =>
    exact (outOfRangeOnly_dateOf _ _ _).bind fun _ => (outOfRangeOnly_dateOf _ _ _).bind fun _ => outOfRangeOnly_ok _
  | quarter =>
    exact (outOfRangeOnly_dateOf _ _ _).bind fun _ => (outOfRangeOnly_dateOf _ _ _).bind fun _ =>
      (outOfRangeOnly_endOfMonth _).bind fun _ => outOfRangeOnly_ok _
  | month =>
    exact (outOfRangeOnly_dateOf _ _ _).bind fun _ => (outOfRangeOnly_endOfMonth _).bind fun _ => outOfRangeOnly_ok _
  | day => exact outOfRangeOnly_ok _

theorem outOfRangeOnly_dateRange (hunits : lower units = p.name)
    (hdir : Direction.ofOffset? (lower offset) = some dir) : OutOfRangeOnly (dateRange offset units d) := by
  rw [dateRange_eq hunits]
  exact (outOfRangeOnly_offsetDate hdir).bind fun e => p.outOfRangeOnly_stretch e

/-- The range that all texts of an offset in a direction give. -/
def RangeOf (units : String) (dir : Direction) (d : Date) (r : Date × Date) : Prop :=
  ∀ offset, Direction.ofOffset? (lower offset) = some dir → dateRange offset units d = .ok r

theorem exists_offset (dir : Direction) : ∃ offset, Direction.ofOffset? (lower offset) = some dir := by
  cases dir with
  | back => exact ⟨"last", by decide⟩
  | stay => exact ⟨"this", by decide⟩
  | forward => exact ⟨"next", by decide⟩

theorem rangeOf_iff (hunits : lower units = p.name) :
    RangeOf units dir d (a, b) ↔
      p.StartsAt (p.index d + dir.sign) a ∧ p.EndsAt (p.index d + dir.sign) b ∧ ¬ p.Missed b := by
  constructor
  · intro h
    obtain ⟨offset, hdir⟩ := exists_offset dir
    exact (dateRange_eq_ok_iff hunits hdir).mp (h offset hdir)
  · exact fun h offset hdir => (dateRange_eq_ok_iff hunits hdir).mpr h

/-- The stretches that have a range: those of the calendar, without the quarter and the month that end it. -/
def Period.Given (p : Period) (i : Int) : Prop :=
  (∃ x, p.index x = i) ∧ ¬ ((p = .quarter ∨ p = .month) ∧ p.index lastDay = i)

theorem Period.given_iff {i : Int} : p.Given i ↔ ∃ a b, p.StartsAt i a ∧ p.EndsAt i b ∧ ¬ p.Missed b := by
  constructor
  · rintro ⟨⟨x, hx⟩, hend⟩
    obtain ⟨a, b, ha, hb⟩ := p.exists_bounds hx
    refine ⟨a, b, ha, hb, fun hmissed => hend ⟨hmissed.1, ?_⟩⟩
    rw [← hmissed.2, hb.1]
  · rintro ⟨a, b, ha, hb, hmissed⟩
    refine ⟨⟨a, ha.1⟩, fun hlast => hmissed ⟨hlast.1, ?_⟩⟩
    rcases p.counts_or_day with ⟨k, hk⟩ | rfl
    · have hindex := hlast.2
      rw [hk.index_eq] at hindex
      obtain ⟨hmonth, hday⟩ := hk.endsAt_iff.mp hb
      exact eq_lastDay_of_monthIndex (by rw [hmonth]; cases hk <;> omega) hday
    · exact absurd hlast.1 (by decide)

theorem exists_rangeOf_iff (hunits : lower units = p.name) :
    (∃ r, RangeOf units dir d r) ↔ p.Given (p.index d + dir.sign) := by
  rw [Period.given_iff]
  constructor
  · rintro ⟨⟨a, b⟩, hr⟩
    exact ⟨a, b, (rangeOf_iff hunits).mp hr⟩
  · rintro ⟨a, b, hab⟩
    exact ⟨(a, b), (rangeOf_iff hunits).mpr hab⟩

theorem dateRange_eq_outOfRange (hunits : lower units = p.name) (hdir : Direction.ofOffset? (lower offset) = some dir)
    (hnot : ¬ p.Given (p.index d + dir.sign)) : dateRange offset units d = .error .outOfRange := by
  cases hrange : dateRange offset units d with
  | error error => rw [outOfRangeOnly_dateRange hunits hdir error hrange]
  | ok r =>
    refine absurd ((exists_rangeOf_iff hunits).mp ⟨r, fun offset' hdir' => ?_⟩) hnot
    exact (dateRange_eq_ok_iff hunits hdir').mpr ((dateRange_eq_ok_iff hunits hdir).mp hrange)

namespace RangeOf

variable {r r' : Date × Date} {dir' : Direction} {x : Date}

theorem within_iff (h : RangeOf units dir d r) (hunits : lower units = p.name) :
    Within r x ↔ p.index x = p.index d + dir.sign := by
  obtain ⟨ha, hb, -⟩ := (rangeOf_iff hunits).mp h
  exact Period.within_iff ha hb

theorem of_within (h : RangeOf units dir d r) (hunits : lower units = p.name) (hx : Within r x) :
    RangeOf units .stay x r := by
  have hindex : p.index x + Direction.stay.sign = p.index d + dir.sign :=
    (Int.add_zero _).trans ((h.within_iff hunits).mp hx)
  exact (rangeOf_iff hunits).mpr (hindex ▸ (rangeOf_iff hunits).mp h)

theorem within_fst (h : RangeOf units dir d r) (hunits : lower units = p.name) : Within r r.1 :=
  (h.within_iff hunits).mpr ((rangeOf_iff hunits).mp h).1.1

theorem within_snd (h : RangeOf units dir d r) (hunits : lower units = p.name) : Within r r.2 :=
  (h.within_iff hunits).mpr ((rangeOf_iff hunits).mp h).2.1.1

theorem next (h : RangeOf units dir d r) (h' : RangeOf units dir' d r') (hunits : lower units = p.name)
    (hsign : dir'.sign = dir.sign + 1) : r.2.Next r'.1 := by
  obtain ⟨-, hb, -⟩ := (rangeOf_iff hunits).mp h
  obtain ⟨ha', -⟩ := (rangeOf_iff hunits).mp h'
  rw [hsign, ← Int.add_assoc] at ha'
  exact Period.next_of_endsAt hb ha'

theorem exists_toDate (h : RangeOf units dir d r) (hunits : lower units = p.name) {part : String}
    (hpart : p.toDate? = some (lower part)) (hdir : Direction.ofOffset? (lower offset) = some dir) :
    ∃ e, dateRange offset part d = .ok (r.1, e) ∧ Within r e := by
  obtain ⟨ha, -⟩ := (rangeOf_iff hunits).mp h
  obtain ⟨e, he⟩ := Period.exists_offsetDate hdir ha.1
  exact ⟨e, (dateRange_toDate_iff hpart hdir).mpr ⟨he, ha⟩,
    (h.within_iff hunits).mpr (Period.index_of_offsetDate hdir he)⟩

end RangeOf

/-- Years, quarters, months and days tile the calendar, for every date `d`.
The range of an offset is given if its stretch lies in the calendar and is not the quarter or month that ends the
calendar; otherwise it is refused as out of range. The range without an offset holds `d`, no range is empty, and
it is the range of each of its dates. Ranges in different directions have no date in common, and the next one
starts on the day after the end. A year or month up to the date starts with the year or month, ends with the
shifted date and lies in the range. -/
theorem dateRange_tiles (hunits : lower units = p.name) (d : Date) :
    (∀ dir, (∃ r, RangeOf units dir d r) ↔ p.Given (p.index d + dir.sign)) ∧
      (∀ dir offset, Direction.ofOffset? (lower offset) = some dir → ¬ p.Given (p.index d + dir.sign) →
        dateRange offset units d = .error .outOfRange) ∧
      (∀ dir r, RangeOf units dir d r →
        (dir = .stay → Within r d) ∧ Within r r.1 ∧ Within r r.2 ∧ ∀ x, Within r x → RangeOf units .stay x r) ∧
      (∀ dir dir' r r', RangeOf units dir d r → RangeOf units dir' d r' → dir.sign < dir'.sign →
        (∀ x, Within r x → ¬ Within r' x) ∧ (dir'.sign = dir.sign + 1 → r.2.Next r'.1)) ∧
      ∀ part, p.toDate? = some (lower part) → ∀ dir offset, Direction.ofOffset? (lower offset) = some dir →
        (∀ a e, dateRange offset part d = .ok (a, e) ↔
          offsetDate d (lower offset) p.step = .ok e ∧ p.StartsAt (p.index d + dir.sign) a) ∧
        ∀ r, RangeOf units dir d r → ∃ e, dateRange offset part d = .ok (r.1, e) ∧ Within r e := by
  refine ⟨fun dir => exists_rangeOf_iff hunits, fun dir offset hdir => dateRange_eq_outOfRange hunits hdir, ?_, ?_, ?_⟩
  · intro dir r hr
    refine ⟨fun hstay => ?_, hr.within_fst hunits, hr.within_snd hunits, fun x => hr.of_within hunits⟩
    rw [hr.within_iff hunits, hstay]
    exact (Int.add_zero _).symm
  · intro dir dir' r r' hr hr' hlt
    refine ⟨fun x hx hx' => ?_, hr.next hr' hunits⟩
    rw [hr.within_iff hunits] at hx
    rw [hr'.within_iff hunits] at hx'
    omega
  · intro part hpart dir offset hdir
    exact ⟨fun a e => dateRange_toDate_iff hpart hdir, fun r hr => hr.exists_toDate hunits hpart hdir⟩

end

/-- The end of March is held to the end of February in a leap year, and the last month of the calendar has no
range, though it has one up to the date. -/
theorem dateRange_tiles_march :
    let d : Date := ⟨2020, 3, 31, by decide⟩
    let last : Date := ⟨262142, 12, 15, by decide⟩
    lower "Month" = Period.month.name ∧
      RangeOf "Month" .back d (⟨2020, 2, 1, by decide⟩, ⟨2020, 2, 29, by decide⟩) ∧
      (∀ r, RangeOf "Month" .stay d r → (⟨2020, 2, 29, by decide⟩ : Date).Next r.1 ∧ Within r d) ∧
      dateRange "this" "Month" last = .error .outOfRange ∧
      dateRange "this" "mtd" last = .ok (⟨262142, 12, 1, by decide⟩, last) := by
  intro d last
  have hunits : lower "Month" = Period.month.name := by decide
  obtain ⟨-, -, heach, hpairs, -⟩ := dateRange_tiles hunits d
  have hback : RangeOf "Month" .back d (⟨2020, 2, 1, by decide⟩, ⟨2020, 2, 29, by decide⟩) :=
    (rangeOf_iff hunits).mpr ⟨Period.Counts.month.startsAt_iff.mpr (by decide),
      Period.Counts.month.endsAt_iff.mpr (by decide), fun hmissed => absurd hmissed.2 (by decide)⟩
  obtain ⟨-, hrefused, -, -, htoDate⟩ := dateRange_tiles hunits last
  have hmissed : ¬ Period.month.Given (Period.month.index last + Direction.stay.sign) := fun h => h.2 (by decide)
  refine ⟨hunits, hback, fun r hr => ⟨?_, (heach .stay r hr).1 rfl⟩, hrefused .stay "this" (by decide) hmissed, ?_⟩
  · exact (hpairs .back .stay _ r hback hr (by decide)).2 rfl
  · refine ((htoDate "mtd" (by decide) .stay "this" (by decide)).1 _ _).mpr ⟨rfl, ?_⟩
    exact Period.Counts.month.startsAt_iff.mpr (by decide)

end ShelfQuery.Calendar
