import ShelfQuery.Calendar.Relative
import ShelfQuery.Proofs.Calendar.DayCount

set_option autoImplicit false

namespace ShelfQuery.Calendar

namespace Date

variable {d d' : Date}

/-- `n` months later: the same day of the month, or the last one if the month is shorter. -/
def MonthsLater (d : Date) (n : Int) (d' : Date) : Prop :=
  d'.year * 12 + d'.month = d.year * 12 + d.month + n ∧ d'.day = min d.day (daysInMonth d'.year d'.month)

theorem monthsLater_iff {n : Int} :
    d.MonthsLater n d' ↔ d'.monthIndex = d.monthIndex + n ∧ d'.day = min d.day (monthLength (d.monthIndex + n)) := by
  have hmonth := d.isDay.2.1
  have hmonth' := d'.isDay.2.1
  have hindex : d'.year * 12 + d'.month = d.year * 12 + d.month + n ↔ d'.monthIndex = d.monthIndex + n := by
    unfold monthIndex
    omega
  rw [MonthsLater, hindex, daysInMonth_eq]
  exact and_congr_right fun h => by rw [h]

theorem addMonths?_eq_some_iff {n : Int} : d.addMonths? n = some d' ↔ d.MonthsLater n d' := by
  have hadd : d.addMonths? n = of? ((d.monthIndex + n) / 12) (((d.monthIndex + n) % 12).toNat + 1)
      (min d.day (monthLength (d.monthIndex + n))) := rfl
  have hmonth := d'.isDay.2.1
  rw [hadd, of?_eq_some_iff, monthsLater_iff, ← and_assoc]
  refine and_congr_left fun _ => ?_
  unfold monthIndex
  omega

inductive After : Nat → Date → Date → Prop where
  | zero (d : Date) : After 0 d d
  | succ {n : Nat} {d d' d'' : Date} : After n d d' → d'.Next d'' → After (n + 1) d d''

theorem after_iff {n : Nat} : After n d d' ↔ d'.toDays = d.toDays + n := by
  constructor
  · intro h
    induction h with
    | zero d => exact (Int.add_zero _).symm
    | succ _ hnext ih =>
      rw [next_iff.mp hnext, ih]
      omega
  · intro h
    induction n generalizing d' with
    | zero =>
      rw [toDays_inj (h.trans (Int.add_zero _))]
      exact .zero d
    | succ n ih =>
      obtain ⟨x, hx⟩ := exists_toDays d d' (k := d.toDays + n) (by omega) (by omega)
      exact .succ (ih hx) (next_iff.mpr (by omega))

def DaysLater (d : Date) (n : Int) (d' : Date) : Prop :=
  (0 ≤ n ∧ After n.toNat d d') ∨ (n ≤ 0 ∧ After (-n).toNat d' d)

theorem daysLater_iff {n : Int} : d.DaysLater n d' ↔ d'.toDays = d.toDays + n := by
  rw [DaysLater, after_iff, after_iff]
  omega

theorem addDays?_eq_some_iff {n : Int} : d.addDays? n = some d' ↔ d.DaysLater n d' := by
  rw [daysLater_iff]
  exact ofDays?_eq_some_iff

end Date

/-- The outcome is the date that is meant, and a refusal if the calendar has no such date. -/
structure Settles (meant : Date → Prop) (outcome : Except DateError Date) : Prop where
  ok : ∀ d, outcome = .ok d ↔ meant d
  error : (¬ ∃ d, meant d) → outcome = .error .outOfRange

theorem settles_ofOption {meant : Date → Prop} {found : Option Date} (h : ∀ d, found = some d ↔ meant d) :
    Settles meant (Date.move.ofOption found) := by
  cases found with
  | none => exact ⟨fun d => iff_of_false (by simp [Date.move.ofOption]) fun hd => by simpa using (h d).mpr hd, fun _ => rfl⟩
  | some x =>
    refine ⟨fun d => ?_, fun hnone => absurd ⟨x, (h x).mp rfl⟩ hnone⟩
    rw [← h d]
    simp [Date.move.ofOption]

theorem not_settles_overflow (meant : Date → Prop) : ¬ Settles meant (.error .overflow) := by
  intro h
  by_cases hsome : ∃ d, meant d
  · obtain ⟨d, hd⟩ := hsome
    cases (h.ok d).mpr hd
  · cases h.error hsome

/-- The direction in which an offset moves a date. -/
def Moves (offset : String) (sign : Int) : Prop :=
  (offset = "prior" ∨ offset = "previous" ∨ offset = "last") ∧ sign = -1 ∨ offset = "next" ∧ sign = 1

theorem Moves.offsetDate {offset : String} {sign : Int} (h : Moves offset sign) (d : Date) (step : Step) :
    offsetDate d offset step = d.move sign step := by
  rcases h with ⟨rfl | rfl | rfl, rfl⟩ | ⟨rfl, rfl⟩ <;> rfl

/-- The dates that a step in a direction means. -/
def Step.Meant (step : Step) (sign : Int) (d d' : Date) : Prop :=
  match step with
  | .years n => d.MonthsLater (sign * (12 * n.toNat)) d'
  | .months n => d.MonthsLater (sign * n.toNat) d'
  | .days n => d.DaysLater (sign * n) d'

/-- The steps whose size the arithmetic can hold. -/
def Step.Fits : Step → Prop
  | .years n => 12 * n.toNat < UInt32.size
  | .months _ => True
  | .days n => -longestStep ≤ n ∧ n ≤ longestStep

theorem move_days (d : Date) (sign : Int) {n : Int} (h : ¬ (n < -longestStep ∨ longestStep < n)) :
    d.move sign (.days n) = Date.move.ofOption (d.addDays? (sign * n)) := if_neg h

theorem Step.Fits.settles {step : Step} (h : step.Fits) (d : Date) (sign : Int) :
    Settles (step.Meant sign d) (d.move sign step) := by
  cases step with
  | years n =>
    have hmove : d.move sign (.years n) = Date.move.ofOption (d.addMonths? (sign * (12 * n.toNat))) :=
      if_neg (Nat.not_le.mpr h)
    rw [hmove]
    exact settles_ofOption fun _ => Date.addMonths?_eq_some_iff
  | months n => exact settles_ofOption fun _ => Date.addMonths?_eq_some_iff
  | days n =>
    obtain ⟨hlow, hhigh⟩ := h
    rw [move_days d sign (by omega)]
    exact settles_ofOption fun _ => Date.addDays?_eq_some_iff

theorem Step.move_of_not_fits {step : Step} (h : ¬ step.Fits) (d : Date) (sign : Int) :
    d.move sign step = .error .overflow := by
  cases step with
  | years n => exact if_pos (Nat.le_of_not_lt h)
  | months n => exact absurd trivial h
  | days n => exact if_pos (by unfold Step.Fits at h; omega)

/-- A step to the past or to the future gives the date that is meant, or refuses it if there is none, exactly if twelve
times its years fit 32 bits and its days can be measured. Every other step fails. -/
theorem offsetDate_settles_iff {offset : String} {sign : Int} (hoffset : Moves offset sign) (d : Date) (step : Step) :
    (Settles (step.Meant sign d) (offsetDate d offset step) ↔ step.Fits) ∧
      (¬ step.Fits → offsetDate d offset step = .error .overflow) := by
  rw [hoffset.offsetDate]
  refine ⟨⟨fun hsettles => ?_, fun hfits => hfits.settles d sign⟩, fun hlong => Step.move_of_not_fits hlong d sign⟩
  by_contra hlong
  rw [Step.move_of_not_fits hlong] at hsettles
  exact not_settles_overflow _ hsettles

/-- Twelve times 357913941 years are the last that fit, and lead out of the calendar; one year or one day more than
fits fails. -/
theorem offsetDate_settles_iff_last :
    let d : Date := ⟨2020, 1, 31, by decide⟩
    Moves "next" 1 ∧ Settles ((Step.years 357913941).Meant 1 d) (offsetDate d "next" (.years 357913941)) ∧
      offsetDate d "next" (.years 357913942) = .error .overflow ∧
      offsetDate d "next" (.days 106751991168) = .error .overflow := by
  intro d
  have hmoves : Moves "next" 1 := .inr ⟨rfl, rfl⟩
  have hyears : ¬ (Step.years 357913942).Fits := by unfold Step.Fits; decide
  have hdays : ¬ (Step.days 106751991168).Fits := by unfold Step.Fits; decide
  have hlast : (Step.years 357913941).Fits := by unfold Step.Fits; decide
  exact ⟨hmoves, (offsetDate_settles_iff hmoves d _).1.mpr hlast, (offsetDate_settles_iff hmoves d _).2 hyears,
    (offsetDate_settles_iff hmoves d _).2 hdays⟩

end ShelfQuery.Calendar
