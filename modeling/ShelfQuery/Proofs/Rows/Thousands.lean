import Mathlib
import ShelfQuery.Proofs.Number.Monotone
import ShelfQuery.Rows.Format

set_option autoImplicit false

namespace ShelfQuery.Rows.Format

open ShelfQuery.Number

/-- One to three digits, then a comma before every three. -/
def Grouped (digits text : List Char) : Prop :=
  ∃ (first : List Char) (groups : List (List Char)), digits = first ++ groups.flatten ∧ text = first ++ groups.flatMap (',' :: ·) ∧
    1 ≤ first.length ∧ first.length ≤ 3 ∧ ∀ g ∈ groups, g.length = 3

theorem grouped_group {digits : List Char} (h : digits ≠ []) : Grouped digits (group digits) := by
  induction digits with
  | nil => exact absurd rfl h
  | cons c rest ih =>
    by_cases hrest : rest = []
    · subst hrest
      exact ⟨[c], [], rfl, rfl, by simp⟩
    · obtain ⟨first, groups, hdigits, htext, hlow, hhigh, hgroups⟩ := ih hrest
      have hlength : rest.length = first.length + groups.length * 3 := by
        rw [hdigits, List.length_append, List.length_flatten, List.map_congr_left hgroups]
        simp
      rw [group, htext]
      split
      · next hthird => exact ⟨[c], first :: groups, by simp [hdigits], rfl, by simp, by simp,
          List.forall_mem_cons.mpr ⟨by omega, hgroups⟩⟩
      · next hthird =>
        have hshort : rest.length % 3 ≠ 0 := fun hzero => hthird ⟨hzero, hrest⟩
        exact ⟨c :: first, groups, by simp [hdigits], rfl, by simp, by simp; omega, hgroups⟩

theorem filter_group {digits : List Char} (h : ',' ∉ digits) : (group digits).filter (· ≠ ',') = digits := by
  induction digits with
  | nil => rfl
  | cons c rest ih =>
    obtain ⟨hc, hrest⟩ := List.ne_and_not_mem_of_not_mem_cons h
    have hfilter : (group rest).filter (fun d => !decide (d = ',')) = rest := by simpa using ih hrest
    rw [group]
    split <;> simp [hc.symm, hfilter]

theorem ofDigitChars_of_isZeroText {cs : List Char} (h : isZeroText cs = true) : Nat.ofDigitChars 10 cs 0 = 0 := by
  induction cs with
  | nil => rfl
  | cons c cs ih =>
    simp only [isZeroText, List.all_cons, Bool.and_eq_true, Bool.or_eq_true, beq_iff_eq] at h
    rw [Nat.ofDigitChars_cons]
    rcases h.1 with rfl | rfl <;> exact ih h.2

theorem isZeroText_toDigits {k : Nat} (h : k ≠ 0) : isZeroText (Nat.toDigits 10 k) = false := by
  rw [Bool.eq_false_iff]
  intro hzero
  have hvalue := ofDigitChars_of_isZeroText hzero
  rw [Nat.ofDigitChars_toDigits (by decide) (by decide)] at hvalue
  exact h hvalue

def comma : Format := ⟨false, true, 0, false⟩

theorem comma_number {n : Int} (hsize : n.natAbs < 2 ^ 64) : comma.number (Binary64.ofInt n) =
    (if n < 0 then "-" else "") ++ String.ofList (group (Nat.toDigits 10 (Binary64.nearestNat n.natAbs))) := by
  have hvalue : |Binary64.value (Binary64.ofInt n)| = Binary64.nearestNat n.natAbs := by
    rw [Binary64.value_ofInt_eq hsize, Binary64.rounded_eq_nearestNat]
    split <;> simp
  have hpoint : ∀ c ∈ Nat.toDigits 10 (Binary64.nearestNat n.natAbs), (c != '.') = true := by
    intro c hc
    have hdigit := Nat.isDigit_of_mem_toDigits (by decide) (by decide) hc
    exact bne_iff_ne.mpr fun heq => absurd (heq ▸ hdigit) (by decide)
  have htake : (Nat.toDigits 10 (Binary64.nearestNat n.natAbs)).takeWhile (· != '.') = _ := List.takeWhile_eq_self_iff.mpr hpoint
  have hdrop : (Nat.toDigits 10 (Binary64.nearestNat n.natAbs)).dropWhile (· != '.') = [] := List.dropWhile_eq_nil_iff.mpr hpoint
  have hsign : (decide (Binary64.ofInt n < 0) && !isZeroText (Nat.toDigits 10 (Binary64.nearestNat n.natAbs))) =
      decide (n < 0) := by
    simp only [Binary64.ofInt_lt_zero hsize]
    by_cases hneg : n < 0
    · simp [hneg, isZeroText_toDigits (Binary64.nearestNat_ne_zero (n := n.natAbs) (by omega))]
    · simp [hneg]
  have htext : (fixed 0 (Binary64.ofInt n)).toList = Nat.toDigits 10 (Binary64.nearestNat n.natAbs) := by
    rw [fixed_whole (Binary64.isFinite_ofInt hsize) hvalue, Nat.toString_eq_ofList_toDigits, String.toList_ofList]
  change (if decide (Binary64.ofInt n < 0) && !isZeroText (fixed 0 (Binary64.ofInt n)).toList then "-" else "") ++ "" ++
    String.ofList (group ((fixed 0 (Binary64.ofInt n)).toList.takeWhile (· != '.'))) ++
    String.ofList ((fixed 0 (Binary64.ofInt n)).toList.dropWhile (· != '.')) ++ "" = _
  rw [htext, htake, hdrop, hsign]
  simp

/-- The format `comma` shows an integer of 64 bits as the nearest number of 53 binary digits, in groups of three and with
the sign of the integer. Read without commas it is that number, which is the integer if its binary digits after the
53rd are zeros. -/
theorem comma_int (n : Int) (hlow : -(2 ^ 63) ≤ n) (hhigh : n < 2 ^ 63) :
    ∃ text digits m, (parse? "comma").map (·.apply (.int n)) = some (.text text) ∧ m = Binary64.nearestNat n.natAbs ∧
      text.toList = (if n < 0 then ['-'] else []) ++ digits ∧ Grouped (Nat.toDigits 10 m) digits ∧
      (String.ofList (text.toList.filter (· ≠ ','))).toInt? = some (if n < 0 then -(m : Int) else m) ∧
      (m = n.natAbs ↔ 2 ^ (Nat.log2 n.natAbs - 52) ∣ n.natAbs) ∧ (n.natAbs ≤ 2 ^ 53 → m = n.natAbs) := by
  generalize hm : Binary64.nearestNat n.natAbs = m
  have hcomma : ',' ∉ Nat.toDigits 10 m := fun hmem =>
    absurd (Nat.isDigit_of_mem_toDigits (by decide) (by decide) hmem) (by decide)
  have hparse : parse? "comma" = some comma := rfl
  refine ⟨_, group (Nat.toDigits 10 m), m, by rw [hparse]; rfl, rfl, ?_, grouped_group Nat.toDigits_ne_nil, ?_,
    hm ▸ Binary64.nearestNat_eq_iff _, hm ▸ Binary64.nearestNat_of_le⟩
  · rw [comma_number (by omega), hm, String.toList_append, String.toList_ofList]
    split <;> simp
  · rw [comma_number (by omega), hm, String.toList_append, String.toList_ofList, List.filter_append, filter_group hcomma]
    split
    · next hneg =>
      have hpos := Binary64.nearestNat_ne_zero (n := n.natAbs) (by omega)
      rw [hm] at hpos
      obtain ⟨k, rfl⟩ := Nat.exists_eq_succ_of_ne_zero hpos
      have htext : String.ofList ("-".toList.filter (· ≠ ',') ++ Nat.toDigits 10 (k + 1)) = (Int.negSucc k).repr := by
        rw [← String.toList_inj]
        simp [Int.repr]
      -- of Mathlib only the whole has the lemmas about texts of integers
      rw [htext, Int.toInt?_repr]
      simp [Int.negSucc_eq]
    · have htext : String.ofList ("".toList.filter (· ≠ ',') ++ Nat.toDigits 10 m) = (m : Int).repr := by
        rw [← String.toList_inj]
        simp [Int.repr]
      rw [htext, Int.toInt?_repr]

/-- Nine quadrillions and more lose their last binary digit. -/
theorem comma_int_rounded : ∃ text, (parse? "comma").map (·.apply (.int 9007199254740993)) = some (.text text) ∧
    (String.ofList (text.toList.filter (· ≠ ','))).toInt? ≠ some 9007199254740993 := by
  have hparse : parse? "comma" = some comma := rfl
  have hdigits : String.ofList ("9,007,199,254,740,992".toList.filter (· ≠ ',')) = (9007199254740992 : Int).repr := by
    decide +kernel
  refine ⟨"9,007,199,254,740,992", ?_, by rw [hdigits, Int.toInt?_repr]; decide⟩
  rw [hparse]
  refine congrArg (fun s => some (Cell.text s)) ((comma_number (by decide)).trans ?_)
  decide +kernel

theorem comma_int_negative : -(2 ^ 63) ≤ (-1234567 : Int) ∧ (-1234567 : Int) < 2 ^ 63 ∧
    ∃ text, (parse? "comma").map (·.apply (.int (-1234567))) = some (.text text) ∧ text.toList.head? = some '-' ∧
      (String.ofList (text.toList.filter (· ≠ ','))).toInt? = some (-1234567) := by
  refine ⟨by decide, by decide, ?_⟩
  obtain ⟨text, digits, m, happly, -, htext, -, hread, -, hexact⟩ := comma_int (-1234567) (by decide) (by decide)
  refine ⟨text, happly, by rw [htext]; rfl, ?_⟩
  rw [hread, hexact (by decide)]
  rfl

end ShelfQuery.Rows.Format
