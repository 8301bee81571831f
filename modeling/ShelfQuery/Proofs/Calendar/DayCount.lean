import Mathlib.Data.Int.Init
import Mathlib.Order.Monotone.Basic
import ShelfQuery.Calendar.Date

set_option autoImplicit false

namespace ShelfQuery.Calendar

variable {n day : Nat} {m year : Int}

/-- Days before the first of March of a year. -/
def daysBeforeYear (year : Int) : Int := 365 * year + year / 4 - year / 100 + year / 400

def monthStart (m : Int) : Int := daysBeforeYear ((m - 2) / 12) + Date.daysBeforeMonth ((m - 2) % 12).toNat

def monthLength (m : Int) : Nat := daysInMonth (m / 12) ((m % 12).toNat + 1)

theorem isLeap_iff (year : Int) : isLeap year = true ↔ year % 4 = 0 ∧ (year % 100 ≠ 0 ∨ year % 400 = 0) := by
  simp [isLeap]

theorem daysInMonth_february (year : Int) : daysInMonth year 2 = if isLeap year then 29 else 28 := rfl

theorem daysInMonth_bounds (year : Int) (month : Nat) : 28 ≤ daysInMonth year month ∧ daysInMonth year month ≤ 31 := by
  unfold daysInMonth
  split
  · split <;> decide
  · split <;> decide

theorem daysBeforeYear_succ (year : Int) :
    daysBeforeYear (year + 1) = daysBeforeYear year + (Date.daysBeforeMonth 11 + daysInMonth (year + 1) 2 : Nat) := by
  have hleap := isLeap_iff (year + 1)
  rw [daysInMonth_february]
  unfold daysBeforeYear Date.daysBeforeMonth
  split
  · next h =>
    have hdivides := hleap.mp h
    omega
  · next h =>
    have hdivides := mt hleap.mpr h
    omega

/-- From March to January the lengths of months do not depend on the year. -/
theorem daysBeforeMonth_succ (year : Int) (hn : n < 11) :
    Date.daysBeforeMonth (n + 1) = Date.daysBeforeMonth n + daysInMonth year ((n + 2) % 12 + 1) := by
  have hcases : n = 0 ∨ n = 1 ∨ n = 2 ∨ n = 3 ∨ n = 4 ∨ n = 5 ∨ n = 6 ∨ n = 7 ∨ n = 8 ∨ n = 9 ∨ n = 10 := by omega
  rcases hcases with rfl | rfl | rfl | rfl | rfl | rfl | rfl | rfl | rfl | rfl | rfl <;> rfl

theorem monthStart_eq (year : Int) (n : Nat) (hn : n < 12) (hm : m = 12 * year + n + 2) :
    monthStart m = daysBeforeYear year + Date.daysBeforeMonth n := by
  have hyear : (m - 2) / 12 = year := by omega
  have hmonth : ((m - 2) % 12).toNat = n := by omega
  rw [monthStart, hyear, hmonth]

theorem exists_fromMarch (m : Int) : ∃ (year : Int) (n : Nat), n < 12 ∧ m = 12 * year + n + 2 :=
  ⟨(m - 2) / 12, ((m - 2) % 12).toNat, by omega, by omega⟩

theorem monthStart_succ (m : Int) : monthStart (m + 1) = monthStart m + monthLength m := by
  obtain ⟨year, n, hn, hm⟩ := exists_fromMarch m
  rw [monthStart_eq year n hn hm, monthLength]
  by_cases hlast : n = 11
  · have hyear : m / 12 = year + 1 := by omega
    have hmonth : (m % 12).toNat + 1 = 2 := by omega
    rw [monthStart_eq (year + 1) 0 (by decide) (by omega), hyear, hmonth, hlast, daysBeforeYear_succ]
    have hstart : Date.daysBeforeMonth 0 = 0 := rfl
    omega
  · have hmonth : (m % 12).toNat = (n + 2) % 12 := by omega
    rw [monthStart_eq year (n + 1) (by omega) (by omega), hmonth]
    have hsucc := daysBeforeMonth_succ (m / 12) (show n < 11 by omega)
    omega

theorem monthLength_bounds (m : Int) : 28 ≤ monthLength m ∧ monthLength m ≤ 31 := daysInMonth_bounds _ _

theorem monthEnd_le {m m' : Int} (h : m < m') : monthStart m + monthLength m ≤ monthStart m' := by
  have hmono : Monotone monthStart := monotone_int_of_le_succ fun m => by
    have hsucc := monthStart_succ m
    omega
  rw [← monthStart_succ]
  exact hmono h

theorem exists_monthStart (k : Int) : ∃ (m : Int) (day : Nat), day < monthLength m ∧ monthStart m + day = k := by
  induction k using Int.induction_on with
  | zero => exact ⟨2, 0, by decide, rfl⟩
  | succ k ih =>
    obtain ⟨m, day, hday, hk⟩ := ih
    by_cases hmore : day + 1 < monthLength m
    · exact ⟨m, day + 1, hmore, by omega⟩
    · have hsucc := monthStart_succ m
      have hlength := (monthLength_bounds (m + 1)).1
      exact ⟨m + 1, 0, by omega, by omega⟩
  | pred k ih =>
    obtain ⟨m, day, hday, hk⟩ := ih
    by_cases hmore : 0 < day
    · exact ⟨m, day - 1, by omega, by omega⟩
    · have hsucc := monthStart_succ (m - 1)
      rw [Int.sub_add_cancel] at hsucc
      have hlength := (monthLength_bounds (m - 1)).1
      exact ⟨m - 1, monthLength (m - 1) - 1, by omega, by omega⟩

/-- A day is the 366th of its year from March only if the year ends with a leap day. -/
theorem dayOfYear_lt (hn : n < 12) (hm : m = 12 * year + n + 2) (hday : day < monthLength m) :
    Date.daysBeforeMonth n + day < 365 ∨ Date.daysBeforeMonth n + day = 365 ∧ isLeap (year + 1) = true := by
  have hnext := monthStart_succ m
  have hsucc := daysBeforeYear_succ year
  have hend : monthStart (m + 1) ≤ daysBeforeYear (year + 1) := by
    by_cases hlast : n = 11
    · rw [monthStart_eq (year + 1) 0 (by decide) (by omega)]
      exact Int.le_of_eq (Int.add_zero _)
    · rw [monthStart_eq year (n + 1) (by omega) (by omega), hsucc]
      unfold Date.daysBeforeMonth
      omega
  rw [monthStart_eq year n hn hm] at hnext
  rw [daysInMonth_february] at hsucc
  have hstart : Date.daysBeforeMonth 11 = 337 := rfl
  split at hsucc
  · next hleap =>
    by_cases hlt : Date.daysBeforeMonth n + day < 365
    · exact .inl hlt
    · exact .inr ⟨by omega, hleap⟩
  · exact .inl (by omega)

theorem month_of_dayOfYear (hn : n < 12) (hm : m = 12 * year + n + 2)
    (hday : day < monthLength m) : (5 * (Date.daysBeforeMonth n + day) + 2) / 153 = n := by
  have hlength : day < Date.daysBeforeMonth (n + 1) - Date.daysBeforeMonth n ∨ n = 11 := by
    by_cases hlast : n = 11
    · exact .inr hlast
    · have hnext := monthStart_succ m
      rw [monthStart_eq year n hn hm, monthStart_eq year (n + 1) (by omega) (by omega)] at hnext
      exact .inl (by omega)
  have hbound := dayOfYear_lt hn hm hday
  unfold Date.daysBeforeMonth at hlength hbound ⊢
  omega

theorem year_of_dayOfEra {year day : Nat} (hyear : year < 400)
    (hday : day < 365 ∨ day = 365 ∧ isLeap (year + 1 : Nat) = true) {dayOfEra : Nat}
    (h : dayOfEra = 365 * year + year / 4 - year / 100 + day) :
    (dayOfEra - dayOfEra / 1460 + dayOfEra / 36524 - dayOfEra / 146096) / 365 = year := by
  have hleap : day < 365 ∨ day = 365 ∧ (year + 1) % 4 = 0 ∧ ((year + 1) % 100 ≠ 0 ∨ (year + 1) % 400 = 0) := by
    rw [isLeap_iff] at hday
    omega
  -- the last day of the four centuries would be the first of a fifth one
  have hcentury : 36524 * (year / 100) ≤ dayOfEra ∧
      (dayOfEra < 36524 * (year / 100) + 36524 ∨ year / 100 = 3 ∧ dayOfEra = 146096) := by omega
  -- the years since the last leap day may be one day longer than 1460 days
  have hfours : 1460 * (year / 4) ≤ dayOfEra ∧
      (dayOfEra < 1460 * (year / 4) + 1460 ∨ dayOfEra < 1460 * (year / 4) + 2920 ∧ 1 ≤ day) := by omega
  have hcenturies : dayOfEra / 36524 = year / 100 + dayOfEra / 146096 := by
    rcases hcentury with ⟨hge, hlt | ⟨hlast, hend⟩⟩
    · rw [Nat.div_eq_of_lt_le (k := year / 100) (by omega) (by omega), Nat.div_eq_of_lt (b := 146096) (by omega)]
      rfl
    · rw [hlast, hend]
  have hleapDays : dayOfEra / 1460 = year / 4 ∨ dayOfEra / 1460 = year / 4 + 1 ∧ 1 ≤ day := by
    clear h hleap hday hcentury hcenturies
    omega
  clear hfours hcentury
  omega

namespace Date

theorem ofDays?_monthStart (h : day < monthLength m) :
    ofDays? (monthStart m + day) = of? (m / 12) ((m % 12).toNat + 1) (day + 1) := by
  obtain ⟨year, n, hn, hm⟩ := exists_fromMarch m
  obtain ⟨y, hy⟩ : ∃ y : Nat, (y : Int) = year % 400 := ⟨(year % 400).toNat, by omega⟩
  have hlt : y < 400 := by omega
  have hdayOfYear : daysBeforeMonth n + day < 365 ∨
      daysBeforeMonth n + day = 365 ∧ isLeap (y + 1 : Nat) = true := by
    have hleap : isLeap (year + 1) = true ↔ isLeap (y + 1 : Nat) = true := by
      rw [isLeap_iff, isLeap_iff]
      omega
    exact (dayOfYear_lt hn hm h).imp_right fun hlast => ⟨hlast.1, hleap.mp hlast.2⟩
  obtain ⟨dayOfEra, hdayOfEra⟩ : ∃ k, k = 365 * y + y / 4 - y / 100 + (daysBeforeMonth n + day) := ⟨_, rfl⟩
  have hbound : dayOfEra < 146097 := by omega
  have hnumber : monthStart m + day = 146097 * (year / 400) + dayOfEra := by
    have hfours : year / 4 = 100 * (year / 400) + (y / 4 : Nat) := by omega
    have hcenturies : year / 100 = 4 * (year / 400) + (y / 100 : Nat) := by omega
    rw [monthStart_eq year n hn hm]
    unfold daysBeforeYear
    omega
  have hera : (monthStart m + day) / 146097 = year / 400 := by omega
  have hrest : ((monthStart m + day) % 146097).toNat = dayOfEra := by omega
  have hyear : year / 400 * 400 + y = year := by omega
  have hday : dayOfEra - (365 * y + y / 4 - y / 100) = daysBeforeMonth n + day := by omega
  have hdom : daysBeforeMonth n + day - daysBeforeMonth n + 1 = day + 1 := by omega
  have hmonth : (if n < 10 then n + 3 else n - 9) = (m % 12).toNat + 1 := by split <;> omega
  simp only [ofDays?, hera, hrest, year_of_dayOfEra hlt hdayOfYear hdayOfEra, hday, month_of_dayOfYear hn hm h, hdom, hyear,
    hmonth]
  congr 1
  split <;> omega

def monthIndex (d : Date) : Int := d.year * 12 + (d.month - 1 : Nat)

variable {d d' : Date}

theorem year_eq (d : Date) : d.year = d.monthIndex / 12 := by
  have hmonth := d.isDay.2.1
  unfold monthIndex
  omega

theorem month_eq (d : Date) : d.month = (d.monthIndex % 12).toNat + 1 := by
  have hmonth := d.isDay.2.1
  unfold monthIndex
  omega

theorem daysInMonth_eq (d : Date) : daysInMonth d.year d.month = monthLength d.monthIndex := by
  rw [monthLength, ← year_eq, ← month_eq]

theorem day_bounds (d : Date) : 1 ≤ d.day ∧ d.day ≤ monthLength d.monthIndex :=
  ⟨d.isDay.2.2.1, d.daysInMonth_eq ▸ d.isDay.2.2.2⟩

theorem ext_monthIndex (hmonth : d.monthIndex = d'.monthIndex) (hday : d.day = d'.day) : d = d' := by
  have hyear : d.year = d'.year := by rw [year_eq, year_eq, hmonth]
  have hmonth : d.month = d'.month := by rw [month_eq, month_eq, hmonth]
  cases d
  cases d'
  cases hyear
  cases hmonth
  cases hday
  rfl

theorem exists_monthIndex (m : Int) (day : Nat) (hyear : firstYear ≤ m / 12 ∧ m / 12 ≤ lastYear)
    (hday : 1 ≤ day ∧ day ≤ monthLength m) : ∃ d : Date, d.monthIndex = m ∧ d.day = day := by
  refine ⟨⟨m / 12, (m % 12).toNat + 1, day, hyear, by omega, hday⟩, ?_, rfl⟩
  unfold monthIndex
  dsimp only
  omega

theorem toDays_eq (d : Date) : d.toDays = monthStart d.monthIndex + (d.day - 1 : Nat) := by
  obtain ⟨hfirst, hlast⟩ := d.isDay.2.1
  by_cases hmonth : d.month ≤ 2
  · rw [monthStart_eq (d.year - 1) (d.month + 9) (by omega) (by unfold monthIndex; omega)]
    simp only [toDays, if_pos hmonth, daysBeforeYear]
    omega
  · rw [monthStart_eq d.year (d.month - 3) (by omega) (by unfold monthIndex; omega)]
    simp only [toDays, if_neg hmonth, daysBeforeYear]
    omega

theorem of?_eq_some_iff {month day : Nat} :
    of? year month day = some d ↔ d.year = year ∧ d.month = month ∧ d.day = day := by
  constructor
  · intro h
    unfold of? at h
    split at h
    · cases h
      exact ⟨rfl, rfl, rfl⟩
    · cases h
  · rintro ⟨rfl, rfl, rfl⟩
    exact dif_pos d.isDay

theorem ofDays?_eq_some_iff {k : Int} : ofDays? k = some d ↔ d.toDays = k := by
  constructor
  · intro h
    obtain ⟨m, day, hday, rfl⟩ := exists_monthStart k
    rw [ofDays?_monthStart hday] at h
    obtain ⟨hyear, hmonth, hday⟩ := of?_eq_some_iff.mp h
    have hindex : d.monthIndex = m := by
      unfold monthIndex
      omega
    rw [toDays_eq, hindex, hday]
    rfl
  · rintro rfl
    have hday := d.day_bounds
    rw [toDays_eq, ofDays?_monthStart (by omega)]
    exact of?_eq_some_iff.mpr ⟨d.year_eq, d.month_eq, by omega⟩

theorem toDays_inj (h : d.toDays = d'.toDays) : d = d' :=
  Option.some.inj ((ofDays?_eq_some_iff.mpr h).symm.trans (ofDays?_eq_some_iff.mpr rfl))

/-- Dates are ordered by their months, and within a month by their days. -/
theorem toDays_lt_iff : d.toDays < d'.toDays ↔
    d.monthIndex < d'.monthIndex ∨ d.monthIndex = d'.monthIndex ∧ d.day < d'.day := by
  have hday := d.day_bounds
  have hday' := d'.day_bounds
  rw [toDays_eq, toDays_eq]
  rcases Int.lt_trichotomy d.monthIndex d'.monthIndex with hlt | heq | hgt
  · have hend := monthEnd_le hlt
    exact iff_of_true (by omega) (.inl hlt)
  · rw [heq]
    omega
  · have hend := monthEnd_le hgt
    omega

theorem before_iff : d.before d' = true ↔ d.toDays < d'.toDays := by
  have hmonth := d.isDay.2.1
  have hmonth' := d'.isDay.2.1
  rw [toDays_lt_iff]
  unfold monthIndex
  simp only [before, Bool.or_eq_true, Bool.and_eq_true, decide_eq_true_eq, beq_iff_eq]
  omega

theorem before_eq_false_iff : d.before d' = false ↔ d'.toDays ≤ d.toDays := by
  rw [← Bool.not_eq_true, before_iff, Int.not_lt]

theorem exists_toDays (d d' : Date) {k : Int} (hge : d.toDays ≤ k) (hle : k ≤ d'.toDays) :
    ∃ x : Date, x.toDays = k := by
  obtain ⟨m, day, hday, hk⟩ := exists_monthStart k
  have hbounds := d.day_bounds
  have hbounds' := d'.day_bounds
  rw [toDays_eq] at hge hle
  have hfirst : ¬ m < d.monthIndex := fun hlt => by
    have hend := monthEnd_le hlt
    omega
  have hlast : ¬ d'.monthIndex < m := fun hlt => by
    have hend := monthEnd_le hlt
    omega
  have hyear := d.isDay.1.1
  have hyear' := d'.isDay.1.2
  rw [year_eq] at hyear hyear'
  obtain ⟨x, hmonth, hx⟩ := exists_monthIndex m (day + 1) (by omega) (by omega)
  exact ⟨x, by rw [toDays_eq, hmonth, hx, ← hk]; rfl⟩

/-- The day after `d`: the next of the month, or else the first of the next month. -/
def Next (d d' : Date) : Prop :=
  (d'.year = d.year ∧ d'.month = d.month ∧ d'.day = d.day + 1) ∨
    (d.day = daysInMonth d.year d.month ∧ d'.day = 1 ∧
      (d'.year = d.year ∧ d'.month = d.month + 1 ∨ d'.year = d.year + 1 ∧ d.month = 12 ∧ d'.month = 1))

theorem next_iff_monthIndex : d.Next d' ↔
    (d'.monthIndex = d.monthIndex ∧ d'.day = d.day + 1) ∨
      (d.day = monthLength d.monthIndex ∧ d'.day = 1 ∧ d'.monthIndex = d.monthIndex + 1) := by
  have hmonth := d.isDay.2.1
  have hmonth' := d'.isDay.2.1
  rw [Next, daysInMonth_eq]
  generalize monthLength d.monthIndex = length
  unfold monthIndex
  omega

theorem next_iff : d.Next d' ↔ d'.toDays = d.toDays + 1 := by
  have hday := d.day_bounds
  have hday' := d'.day_bounds
  have hsucc := monthStart_succ d.monthIndex
  rw [next_iff_monthIndex, toDays_eq, toDays_eq]
  constructor
  · rintro (⟨hmonth, hnext⟩ | ⟨hend, hfirst, hmonth⟩)
    · rw [hmonth]
      omega
    · rw [hmonth]
      omega
  · intro hdays
    rcases Int.lt_trichotomy d.monthIndex d'.monthIndex with hlt | heq | hgt
    · have hstart := monthEnd_le hlt
      have hmonth : ¬ d.monthIndex + 1 < d'.monthIndex := fun hfar => by
        have hlater := monthEnd_le hfar
        have hlength := (monthLength_bounds (d.monthIndex + 1)).1
        omega
      exact .inr ⟨by omega, by omega, by omega⟩
    · rw [heq] at hdays
      exact .inl ⟨heq.symm, by omega⟩
    · have hstart := monthEnd_le hgt
      omega

end Date

end ShelfQuery.Calendar
