import ShelfQuery.Number.Text
import ShelfQuery.Proofs.Text.Words

set_option autoImplicit false

namespace ShelfQuery.Number

open ShelfQuery.Text

theorem parse?_cons {c : Char} (hc : (c.isDigit || c == '.') = true) (cs : List Char) :
    parse? (String.ofList (c :: cs)) = parseUnsigned? false (c :: cs) := by
  have hrange : 46 ≤ c.toNat ∧ c.toNat ≤ 57 := by
    rcases Bool.or_eq_true_iff.mp hc with hdigit | hpoint
    · have := isDigit_range hdigit
      omega
    · rw [beq_iff_eq.mp hpoint]
      decide
  have hword (word : String) (w : Char) (hw : word.toList.head? = some w) (hletter : 57 < w.toNat) :
      lower (String.ofList (c :: cs)) ≠ word := by
    rintro rfl
    rw [lower, String.toList_ofList, String.toList_ofList, List.map_cons, List.head?_cons, lowerAscii_of_lt (by omega)] at hw
    obtain rfl := Option.some.inj hw
    omega
  have hne (d : Char) (hd : d.toNat < 46) : c ≠ d := by
    rintro rfl
    omega
  unfold parse?
  rw [String.toList_ofList]
  split
  next negative rest hsign =>
  split at hsign
  · next heq => exact absurd (List.cons.inj heq).1 (hne '+' (by decide))
  · next heq => exact absurd (List.cons.inj heq).1 (hne '-' (by decide))
  · cases hsign
    have hinf := hword "inf" 'i' (by simp) (by decide)
    have hinfinity := hword "infinity" 'i' (by simp) (by decide)
    have hnan := hword "nan" 'n' (by simp) (by decide)
    simp only [hinf, hinfinity, hnan, decide_false, Bool.or_self, Bool.false_eq_true, if_false]

theorem parse?_digits {c : Char} {digits : List Char} (h : ∀ d ∈ c :: digits, d.isDigit = true) :
    parse? (String.ofList (c :: digits)) = some (Binary64.ofDecimal false (valueOf (c :: digits)) 0) := by
  have hc : c.isDigit = true := h c (List.mem_cons_self ..)
  have hend : Stops Char.isDigit ([] : List Char).head? := rfl
  obtain ⟨htake, hdrop⟩ := span_eq h hend
  rw [List.append_nil] at htake hdrop
  rw [parse?_cons (by rw [hc]; rfl), parseUnsigned?, takeDigits, htake, hdrop]
  simp [parseExponent?]

theorem parse?_decimal {whole fraction : List Char} (hwhole : ∀ d ∈ whole, d.isDigit = true)
    (hfraction : ∀ d ∈ fraction, d.isDigit = true) (hne : whole ++ fraction ≠ []) :
    parse? (String.ofList (whole ++ '.' :: fraction)) =
      some (Binary64.ofDecimal false (valueOf (whole ++ fraction)) (-(fraction.length : Int))) := by
  have hunsigned : parse? (String.ofList (whole ++ '.' :: fraction)) = parseUnsigned? false (whole ++ '.' :: fraction) := by
    cases whole with
    | nil => exact parse?_cons rfl fraction
    | cons d whole => exact parse?_cons (by simp [hwhole d]) _
  have hpoint : Stops Char.isDigit ('.' :: fraction).head? := rfl
  have hend : Stops Char.isDigit ([] : List Char).head? := rfl
  obtain ⟨htake, hdrop⟩ := span_eq hwhole hpoint
  obtain ⟨htake', hdrop'⟩ := span_eq hfraction hend
  rw [List.append_nil] at htake' hdrop'
  rw [hunsigned, parseUnsigned?, takeDigits, htake, hdrop]
  simp only [takeDigits, htake', hdrop']
  rw [if_neg (by simpa using hne)]
  simp [parseExponent?]

/-- A dash after the first digits is no part of a decimal. -/
theorem parse?_dash {d : Char} {ds : List Char} (hds : ∀ c ∈ d :: ds, c.isDigit = true) (rest : List Char) :
    parse? (String.ofList (d :: (ds ++ '-' :: rest))) = none := by
  have hd : d.isDigit = true := hds d (by simp)
  have hdigits : takeDigits (d :: (ds ++ '-' :: rest)) = (d :: ds, '-' :: rest) := by
    rw [← List.cons_append, takeDigits, List.takeWhile_append_of_pos hds, List.dropWhile_append_of_pos hds]
    simp
  rw [parse?_cons (by rw [hd]; rfl), parseUnsigned?, hdigits]
  rfl

end ShelfQuery.Number
