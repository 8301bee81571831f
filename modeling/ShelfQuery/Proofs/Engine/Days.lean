import ShelfQuery.Proofs.Calendar.Stretches
import ShelfQuery.Proofs.Engine.DateOrder

set_option autoImplicit false

namespace ShelfQuery.Calendar.Stamp

open ShelfQuery.Number ShelfQuery.Text

variable {s : Stamp}

theorem dashed (hs : s.date.FourDigits) : Engine.Dashed s.text := by
  simpa only [text, String.append_assoc] using Date.dashed_append hs _

theorem dateIn?_text (hs : s.date.FourDigits) : Engine.dateIn? s.text = some s.date := by
  have hlength : s.date.text.toList.length = 10 := by
    have hyear : (padded 4 s.date.year.toNat).toList.length = 4 := by
      obtain ⟨hlow, hhigh⟩ := hs
      exact length_padded (by decide) (by omega)
    have hmonth : (padded 2 s.date.month).toList.length = 2 := length_padded (by decide) s.date.month_lt
    have hday : (padded 2 s.date.day).toList.length = 2 := length_padded (by decide) s.date.day_lt
    simp [Date.text_toList hs, hyear, hmonth, hday]
  have htext : s.text.toList = s.date.text.toList ++ ' ' :: ((padded 2 s.hour).toList ++ ':' ::
      ((padded 2 s.minute).toList ++ ':' :: ((padded 2 s.second).toList ++ (decimals s.micros).toList))) := by
    simp [text]
  rw [Engine.dateIn?, htext, List.drop_left' hlength, List.take_left' hlength]
  simp [Date.ofPattern?_text]

end ShelfQuery.Calendar.Stamp

namespace ShelfQuery.Engine

open ShelfQuery.Sql ShelfQuery.Calendar ShelfQuery.Expression

/-- Every day of four digits lies in a unit, whose first day may lie before year 0. -/
theorem exists_firstDay? (unit : TruncUnit) {d : Date} (h : d.FourDigits) :
    ∃ day, firstDay? unit d = some day ∧ day.year ≤ 9999 := by
  have hfirst {month : Nat} (hmonth : 1 ≤ month ∧ month ≤ 12) :
      ∃ day, Date.of? d.year month 1 = some day ∧ day.year ≤ 9999 := by
    have hdays := daysInMonth_bounds d.year month
    have hday : IsDay d.year month 1 := ⟨d.isDay.1, hmonth, by omega⟩
    exact ⟨⟨d.year, month, 1, hday⟩, dif_pos hday, h.2⟩
  have hmonth := d.isDay.2.1
  cases unit with
  | year => exact hfirst (by decide)
  | quarter => exact hfirst (by omega)
  | month => exact hfirst hmonth
  | day => exact ⟨d, rfl, h.2⟩
  | week =>
    let early : Date := ⟨-1, 12, 1, by decide⟩
    let start : Date := ⟨0, 1, 1, by decide⟩
    have hdays : early.toDays + 6 ≤ start.toDays := by decide
    have hstart : start.toDays ≤ d.toDays := by
      have hyear := h.1
      have hday := d.isDay.2.2.1
      refine Date.before_eq_false_iff.mp ?_
      simp only [Date.before, start, Bool.or_eq_false_iff, Bool.and_eq_false_iff, decide_eq_false_iff_not]
      omega
    obtain ⟨day, hday⟩ := Date.exists_toDays early d (k := d.toDays + -((d.toDays + 2) % 7)) (by omega) (by omega)
    refine ⟨day, Date.ofDays?_eq_some_iff.mpr hday, ?_⟩
    have hle : d.before day = false := Date.before_eq_false_iff.mpr (by omega)
    have hyear : ¬ d.year < day.year := fun hlt => by simp [Date.before, hlt] at hle
    have hyear' := h.2
    omega

variable {tables : List StoredTable} {f : Focus} {x : Sql} {first last : Date}

theorem eval_between_days {s : String} (hx : eval tables f x = .text s)
    (hs : ((affinityOf tables f.table x).shared .none).Keeps s) (hfirst : first.FourDigits) (hlast : last.FourDigits) :
    eval tables f (.between x (.literal (.datetime (.startOfDay first))) (.literal (.datetime (.endOfDay last)))) =
      ofBool (!Text.before s.toList (DateTime.startOfDay first).text.toList &&
        !Text.before (DateTime.endOfDay last).text.toList s.toList) := by
  have hpair (a b : Bool) : ofTruth (allTrue [some a, some b]) = ofBool (a && b) := by
    cases a <;> cases b <;> rfl
  rw [← hpair, ← holds_ge_texts hs ((DateTime.dashed hfirst).keeps _),
    ← holds_le_texts hs ((DateTime.dashed hlast).keeps _), ← hx]
  rfl

theorem eval_days_of_moment {cell : Stamp} (hx : eval tables f x = .text cell.text) (hcell : cell.date.FourDigits)
    (hsecond : cell.second ≤ 59) (hfirst : first.FourDigits) (hlast : last.FourDigits) :
    eval tables f (.between x (.literal (.datetime (.startOfDay first))) (.literal (.datetime (.endOfDay last)))) =
      ofBool (decide (Within (first, last) cell.date)) := by
  have hwithin (a b : Bool) : (!a && !b) = decide (a = false ∧ b = false) := by
    cases a <;> cases b <;> rfl
  rw [eval_between_days hx ((Stamp.dashed hcell).keeps _) hfirst hlast, Stamp.before_startOfDay hcell hfirst,
    Stamp.endOfDay_before hcell hlast hsecond, hwithin]
  rfl

theorem eval_dateTrunc {unit : TruncUnit} {table name : String} {cell : Stamp} {day : Date}
    (hcell : f.column name = .text cell.text) (hyear : cell.date.FourDigits) (hday : firstDay? unit cell.date = some day) :
    eval tables f (.dateTrunc unit (.column table name) true) = .text day.text := by
  have htrunc : truncateCell unit (.text cell.text) = .text day.text := by
    simp only [truncateCell, Stamp.dateIn?_text hyear, Option.bind_some, hday]
  rw [← htrunc, ← hcell]
  rfl

/-- A date without a time is in a range of days if it is one of them but not the first. -/
theorem eval_days_of_date {unit : TruncUnit} {d : Date} (hx : eval tables f (.dateTrunc unit x true) = .text d.text)
    (hd : d.year ≤ 9999) (hfirst : first.FourDigits) (hlast : last.FourDigits) :
    eval tables f (.between (.dateTrunc unit x true) (.literal (.datetime (.startOfDay first)))
      (.literal (.datetime (.endOfDay last)))) = ofBool (first.before d && !last.before d) := by
  rw [eval_between_days hx rfl hfirst hlast, Date.before_startOfDay hd hfirst, Date.endOfDay_before hlast hd,
    Bool.not_not]

end ShelfQuery.Engine
