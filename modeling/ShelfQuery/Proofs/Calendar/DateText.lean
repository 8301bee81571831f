import ShelfQuery.Calendar.Text
import ShelfQuery.Proofs.Number.Digits

set_option autoImplicit false

namespace ShelfQuery.Calendar

open ShelfQuery.Number ShelfQuery.Text

theorem yearText_cases (y : Int) :
    (y < 0 ∧ (yearText y).toList = '-' :: (padded 4 y.natAbs).toList) ∨
    (9999 < y ∧ (yearText y).toList = '+' :: (padded 4 y.natAbs).toList) ∨
    (0 ≤ y ∧ y ≤ 9999 ∧ (yearText y).toList = (padded 4 y.natAbs).toList) := by
  unfold yearText
  split
  · next hneg => exact .inl ⟨hneg, by simp⟩
  · split
    · next hlarge => exact .inr (.inl ⟨hlarge, by simp⟩)
    · exact .inr (.inr ⟨by omega, by omega, rfl⟩)

theorem yearText_append_inj {y y' : Int} {u v : List Char}
    (h : (yearText y).toList ++ '-' :: u = (yearText y').toList ++ '-' :: v) : y = y' ∧ u = v := by
  have hdash : '-'.isDigit = false := by decide
  have hplus : '+'.isDigit = false := by decide
  have hne (w : List Char) {c : Char} (hc : c.isDigit = false) (n : Nat) (w' : List Char) :
      (padded 4 n).toList ++ w ≠ c :: w' := digits_append_ne (isDigits_padded 4 n) (padded_ne_nil 4 n) hc
  have hsame (h : (padded 4 y.natAbs).toList ++ '-' :: u = (padded 4 y'.natAbs).toList ++ '-' :: v) :
      y.natAbs = y'.natAbs ∧ u = v := by
    obtain ⟨hdigits, hrest⟩ := digits_append_inj (isDigits_padded 4 _) (isDigits_padded 4 _) hdash h
    exact ⟨padded_inj hdigits, hrest⟩
  rcases yearText_cases y with ⟨hy, hd⟩ | ⟨hy, hd⟩ | ⟨hy, hy9, hd⟩ <;>
    rcases yearText_cases y' with ⟨hy', hd'⟩ | ⟨hy', hd'⟩ | ⟨hy', hy9', hd'⟩ <;>
    rw [hd, hd'] at h
  · obtain ⟨habs, hrest⟩ := hsame (List.cons.inj h).2
    exact ⟨by omega, hrest⟩
  · exact absurd (List.cons.inj h).1 (by decide)
  · exact absurd h.symm (hne _ hdash _ _)
  · exact absurd (List.cons.inj h).1 (by decide)
  · obtain ⟨habs, hrest⟩ := hsame (List.cons.inj h).2
    exact ⟨by omega, hrest⟩
  · exact absurd h.symm (hne _ hplus _ _)
  · exact absurd h (hne _ hdash _ _)
  · exact absurd h (hne _ hplus _ _)
  · obtain ⟨habs, hrest⟩ := hsame h
    exact ⟨by omega, hrest⟩

namespace Date

theorem month_lt (d : Date) : d.month < 10 ^ 2 := by
  have hmonth := d.isDay.2.1.2
  omega

theorem day_lt (d : Date) : d.day < 10 ^ 2 := by
  have hday := d.isDay.2.2.2
  unfold daysInMonth at hday
  split at hday <;> split at hday <;> omega

theorem text_append_inj {d d' : Date} {u v : List Char} (h : d.text.toList ++ u = d'.text.toList ++ v) :
    d = d' ∧ u = v := by
  have hdash : "-".toList = ['-'] := by simp
  simp only [text, String.toList_append, List.append_assoc, hdash, List.cons_append, List.nil_append] at h
  obtain ⟨hyear, h⟩ := yearText_append_inj h
  obtain ⟨hmonth, h⟩ := padded_append_inj (by decide) d.month_lt d'.month_lt h
  obtain ⟨hday, hrest⟩ := padded_append_inj (by decide) d.day_lt d'.day_lt (List.cons.inj h).2
  obtain ⟨year, month, day, isDay⟩ := d
  cases hyear
  cases hmonth
  cases hday
  exact ⟨rfl, hrest⟩

theorem not_prefix {d d' : Date} (hne : d ≠ d') : ¬ d.text.toList <+: d'.text.toList := by
  rintro ⟨u, hu⟩
  exact hne (text_append_inj (hu.trans (List.append_nil _).symm)).1

end Date

end ShelfQuery.Calendar
