import ShelfQuery.Proofs.Number.Digits
import ShelfQuery.Proofs.Number.Shortest

set_option autoImplicit false

namespace ShelfQuery.Number

open ShelfQuery.Text

def Decimal.whole (d : Decimal) : Nat := d.coefficient * 10 ^ d.exponent.toNat

theorem Decimal.value_eq_whole {d : Decimal} (h : 0 ≤ d.exponent) : d.value = d.whole := by
  obtain ⟨k, hk⟩ := Int.eq_ofNat_of_zero_le h
  rw [Decimal.value, Decimal.whole, hk, Int.toNat_natCast]
  push_cast
  rfl

theorem positional_whole {d : Decimal} (h : 0 ≤ d.exponent) :
    ∃ cs, positional d = String.ofList cs ∧ cs ≠ [] ∧ IsDigits cs ∧ valueOf cs = d.whole := by
  have hdigits : toString d.coefficient = String.ofList (Nat.toDigits 10 d.coefficient) := rfl
  simp only [positional, if_pos h]
  split
  · next hzero =>
    refine ⟨_, hdigits, Nat.toDigits_ne_nil, isDigits_toDigits _, ?_⟩
    rw [valueOf_toDigits, Decimal.whole, hzero, Nat.zero_mul]
  · refine ⟨Nat.toDigits 10 d.coefficient ++ List.replicate d.exponent.toNat '0', ?_, ?_, ?_, ?_⟩
    · rw [hdigits, zeros, fill, String.ofList_append]
    · simp [Nat.toDigits_ne_nil]
    · exact isDigits_append (isDigits_toDigits _) (isDigits_zeros _)
    · rw [valueOf_eq, Nat.ofDigitChars_append, Nat.ofDigitChars_ten_toDigits, Nat.ofDigitChars_replicate_zero,
        Decimal.whole, Nat.mul_comm]

theorem positional_fraction {d : Decimal} (h : d.exponent < 0) :
    ∃ whole fraction, positional d = String.ofList (whole ++ '.' :: fraction) ∧ whole ≠ [] ∧ IsDigits whole ∧
      IsDigits fraction ∧ valueOf (whole ++ fraction) = d.coefficient ∧ (fraction.length : Int) = -d.exponent := by
  have hdigits : (toString d.coefficient).toList = Nat.toDigits 10 d.coefficient := String.toList_ofList
  have hall := isDigits_toDigits d.coefficient
  have hvalue := valueOf_toDigits d.coefficient
  simp only [positional, if_neg (show ¬ 0 ≤ d.exponent by omega), hdigits, ← String.length_toList]
  generalize Nat.toDigits 10 d.coefficient = ds at hdigits hall hvalue
  split
  · refine ⟨ds.take (ds.length - (-d.exponent).toNat), ds.drop (ds.length - (-d.exponent).toNat),
      ?_, ?_, ?_, ?_, ?_, ?_⟩
    · simp [String.ofList_append, String.ofList_cons, String.append_assoc]
    · rw [ne_eq, List.take_eq_nil_iff]
      rintro (hlength | rfl)
      · omega
      · simp at *
    · exact fun c hc => hall c (List.mem_of_mem_take hc)
    · exact fun c hc => hall c (List.mem_of_mem_drop hc)
    · rwa [List.take_append_drop]
    · rw [List.length_drop]
      omega
  · refine ⟨['0'], List.replicate ((-d.exponent).toNat - ds.length) '0' ++ ds, ?_, by simp, by simp [IsDigits],
      isDigits_append (isDigits_zeros _) hall, ?_, ?_⟩
    · have hds : toString d.coefficient = String.ofList ds := by rw [← hdigits, String.ofList_toList]
      rw [hds, zeros, fill]
      exact String.toList_inj.mp (by simp)
    · have hzero : Nat.ofDigitChars 10 ['0'] 0 = 0 := rfl
      rw [valueOf_eq, Nat.ofDigitChars_append, Nat.ofDigitChars_append, hzero, Nat.ofDigitChars_replicate_zero,
        Nat.mul_zero, ← valueOf_eq, hvalue]
    · rw [List.length_append, List.length_replicate]
      omega

namespace Binary64

theorem value_ofDecimal_zero (exponent : Int) : value (ofDecimal false 0 exponent) = 0 := by
  have hzero : ofDecimal false 0 exponent = Float.ofBits 0 := by simp [ofDecimal, ofRatio]
  have hbits : readBits (UInt64.toNat 0) = .finite false 0 (-1074) := rfl
  rw [hzero, value_ofBits, hbits]
  simp [Reading.value]

theorem value_ofDecimal_word : value (ofDecimal false (2 ^ 63) 0) = 2 ^ 63 := by
  have hrounds : Rounds ((2 ^ 63 : Nat) * 10 ^ (0 : Int)) (2 ^ 52) 11 := by
    refine ⟨?_, ?_, fun hodd => absurd hodd (by decide)⟩
    · rw [if_pos ⟨rfl, by decide⟩]
      norm_num
    · norm_num
  have hdouble : (Reading.finite false (2 ^ 52) 11).IsDouble := ⟨by decide, by decide, by decide, .inl (by decide)⟩
  rw [value_ofDecimal (by decide) hdouble hrounds]
  norm_num

end Binary64

section

variable {m : Nat} {e : Int} (hdouble : (Reading.finite false m e).IsDouble)

include hdouble

theorem shortest_fraction (hpos : 0 < m) (h : (shortest m e).exponent < 0) :
    ∃ whole fraction, positional (shortest m e) = String.ofList (whole ++ '.' :: fraction) ∧ whole ≠ [] ∧
      IsDigits whole ∧ IsDigits fraction ∧
      Binary64.value (Binary64.ofDecimal false (valueOf (whole ++ fraction)) (-(fraction.length : Int))) = m * 2 ^ e := by
  obtain ⟨whole, fraction, htext, hne, hwhole, hfraction, hvalue, hlength⟩ := positional_fraction h
  refine ⟨whole, fraction, htext, hne, hwhole, hfraction, ?_⟩
  rw [hvalue, hlength, neg_neg]
  exact Binary64.value_ofDecimal hpos hdouble (rounds_shortest hpos hdouble.1)

theorem shortest_point (h : 0 ≤ (shortest m e).exponent) :
    ∃ whole, positional (shortest m e) = String.ofList whole ∧ whole ≠ [] ∧ IsDigits whole ∧
      Binary64.value (Binary64.ofDecimal false (valueOf (whole ++ ['0'])) (-((['0'] : List Char).length : Int))) =
        m * 2 ^ e := by
  obtain ⟨cs, htext, hne, hcs, hvalue⟩ := positional_whole h
  refine ⟨cs, htext, hne, hcs, ?_⟩
  have hten : valueOf (cs ++ ['0']) = (shortest m e).whole * 10 := by
    rw [valueOf_eq, Nat.ofDigitChars_append, ← valueOf_eq, hvalue, Nat.mul_comm]
    rfl
  rw [hten]
  rcases Nat.eq_zero_or_pos m with rfl | hpos
  · have hshortest : (shortest 0 e).whole * 10 = 0 := rfl
    rw [hshortest, Binary64.value_ofDecimal_zero]
    simp
  · refine Binary64.value_ofDecimal hpos hdouble ?_
    have hunit : (((shortest m e).whole * 10 : Nat) : ℚ) * 10 ^ (-((['0'] : List Char).length : Int)) =
        (shortest m e).value := by
      rw [Decimal.value_eq_whole h]
      push_cast
      simp
    rw [hunit]
    exact rounds_shortest hpos hdouble.1

end

section

variable {x : Float} {negative : Bool} {m : Nat} {e : Int} (hread : Binary64.read x = .finite negative m e)

include hread

theorem isDouble_of_read : (Reading.finite false m e).IsDouble := by
  have hdouble := Binary64.read_isDouble x
  rw [hread] at hdouble
  exact hdouble

theorem natAbs_of_toInt? {n : Int} (h : Binary64.toInt? x = some n) : (m : ℚ) * 2 ^ e = n.natAbs := by
  have hnonneg : (0 : ℚ) ≤ m * 2 ^ e := mul_nonneg (Nat.cast_nonneg m) (two_zpow_pos e).le
  have habs : |(n : ℚ)| = m * 2 ^ e := by
    rw [← Binary64.value_toInt? h, Binary64.value, hread, Reading.value]
    cases negative <;> simp [abs_of_nonneg hnonneg]
  rw [← habs, Nat.cast_natAbs, Int.cast_abs]

theorem negative_exponent_of_toInt? (h : Binary64.toInt? x = none) : e < 0 ∧ 0 < m := by
  constructor
  · by_contra he
    simp [Binary64.toInt?, hread, not_lt.mp he] at h
  · refine Nat.pos_of_ne_zero ?_
    rintro rfl
    simp [Binary64.toInt?, hread] at h

/-- A double that is an integer below ten to the sixteenth has no decimals but the one that is added. -/
theorem shortest_exponent_of_toInt? {n : Int} (hint : Binary64.toInt? x = some n) (hsmall : n.natAbs < 10 ^ 16) :
    0 ≤ (shortest m e).exponent := by
  rcases Nat.eq_zero_or_pos m with rfl | hpos
  · exact Int.le_refl 0
  · exact shortest_exponent_nonneg hpos (natAbs_of_toInt? hread hint) hsmall

end

end ShelfQuery.Number
