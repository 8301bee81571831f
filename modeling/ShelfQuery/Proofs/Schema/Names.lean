import ShelfQuery.Proofs.Text.Words
import ShelfQuery.Schema.Table

set_option autoImplicit false

namespace ShelfQuery.Schema

open ShelfQuery.Text

theorem isNameChar_of_isIdentifier {name : String} (h : isIdentifier name = true) :
    ∀ c ∈ name.toList, isNameChar c = true := by
  unfold isIdentifier at h
  intro c hc
  split at h
  · cases h
  · next first rest hname =>
    simp only [Bool.and_eq_true, List.all_eq_true] at h
    rw [hname] at hc
    rcases List.mem_cons.mp hc with rfl | hc
    · have hstart := h.1
      simp only [isNameStart, Bool.or_eq_true] at hstart
      rcases hstart with hstart | hstart <;> simp [isNameChar, Char.isAlphanum, hstart]
    · exact h.2 c hc

/-- Lower case keeps the characters of names apart from all others. -/
theorem isNameChar_lowerAscii (c : Char) : isNameChar (lowerAscii c) = isNameChar c := by
  by_cases hupper : c.isUpper = true
  · have hletters : ∀ n < 26, isNameChar (Char.ofNat (n + 97)) = true := by decide
    have hrange : 65 ≤ c.toNat ∧ c.toNat ≤ 90 :=
      (of_decide_eq_true hupper).imp UInt32.le_iff_toNat_le.mp UInt32.le_iff_toNat_le.mp
    have hletter := hletters (c.toNat - 65) (by omega)
    have hshift : c.toNat - 65 + 97 = c.toNat + 32 := by omega
    have hchar : isNameChar c = true := by
      have halpha : c.isAlpha = true := Bool.or_eq_true_iff.mpr (.inl hupper)
      have hword : c.isAlphanum = true := Bool.or_eq_true_iff.mpr (.inl halpha)
      exact Bool.or_eq_true_iff.mpr (.inl hword)
    rw [lowerAscii, if_pos hupper, ← hshift, hletter, hchar]
  · rw [lowerAscii, if_neg hupper]

theorem isNameChar_of_find? {schema : Table} {name : String} {column : Column}
    (h : schema.find? name = some column) : name.toList ≠ [] ∧ ∀ c ∈ name.toList, isNameChar c = true := by
  have hfound := List.find?_some (h : schema.columns.find? _ = some column)
  obtain ⟨hidentifier, hsame⟩ := Bool.and_eq_true_iff.mp hfound
  have hlower : column.name.toList.map lowerAscii = name.toList.map lowerAscii := beq_iff_eq.mp hsame
  constructor
  · intro hnil
    rw [hnil, List.map_nil, List.map_eq_nil_iff] at hlower
    simp [isIdentifier, hlower] at hidentifier
  · intro c hc
    have hmem : lowerAscii c ∈ column.name.toList.map lowerAscii := hlower ▸ List.mem_map_of_mem hc
    obtain ⟨d, hd, heq⟩ := List.mem_map.mp hmem
    have hchar := isNameChar_of_isIdentifier hidentifier d hd
    rw [← isNameChar_lowerAscii, heq, isNameChar_lowerAscii] at hchar
    exact hchar

theorem isIdentifier_chars {name : String} (h : isIdentifier name = true) :
    ∃ c rest, name.toList = c :: rest ∧ isNameStart c = true := by
  unfold isIdentifier at h
  split at h
  · cases h
  · next c rest hname => exact ⟨c, rest, hname, by simpa using (Bool.and_eq_true _ _ ▸ h).1⟩

theorem ne_dash_append {name rest : String} (h : isIdentifier name = true) : name ≠ "-" ++ rest := by
  rintro rfl
  have hdash : '-' ∈ ("-" ++ rest).toList := by simp
  exact absurd (isNameChar_of_isIdentifier h '-' hdash) (by decide)

theorem not_isDigit_of_isNameStart {c : Char} (h : isNameStart c = true) : c.isDigit = false := by
  rw [Bool.eq_false_iff]
  intro hdigit
  rw [isNameStart, not_isAlpha_of_isDigit hdigit, Bool.false_or, beq_iff_eq] at h
  subst h
  exact absurd hdigit (by decide)

theorem toNat_lt_of_isNameChar {c : Char} (h : isNameChar c = true) : c.toNat < 128 := by
  have hclasses : (c.isAlpha = true ∨ c.isDigit = true) ∨ c = '_' := by simpa [isNameChar, Char.isAlphanum] using h
  rcases hclasses with (halpha | hdigit) | rfl
  · exact toNat_lt_of_isAlpha halpha
  · have hrange := isDigit_range hdigit
    omega
  · decide

theorem isBlank_of_isNameChar {c : Char} (h : isNameChar c = true) : isBlank c = false := by
  have hall : ∀ n < 128, isNameChar (Char.ofNat n) = true → isBlank (Char.ofNat n) = false := by decide
  have hc := hall c.toNat (toNat_lt_of_isNameChar h)
  rw [Char.ofNat_toNat] at hc
  exact hc h

theorem find?_column {schema : Table} {name : String} {column : Column} (h : schema.find? name = some column) :
    column ∈ schema.columns ∧ isIdentifier column.name = true := by
  refine ⟨List.mem_of_find?_eq_some h, ?_⟩
  have hfound := List.find?_some h
  simp only [Bool.and_eq_true] at hfound
  exact hfound.1

end ShelfQuery.Schema
