import ShelfQuery.Number.Shortest
import ShelfQuery.Proofs.Number.Rounding

set_option autoImplicit false

/-!
# Shortest digits read back

The shortest decimal of a double rounds to it, so it is read back as it. Seventeen digits are always enough: their
grid is finer than the interval.
-/

namespace ShelfQuery.Number

def Decimal.value (d : Decimal) : ℚ := d.coefficient * 10 ^ d.exponent

theorem ten_zpow_pos (e : Int) : (0 : ℚ) < 10 ^ e := zpow_pos (by norm_num) e

theorem digits_bounds {n : Nat} (h : n ≠ 0) :
    (10 : ℚ) ^ (((toString n).length : Int) - 1) ≤ n ∧ (n : ℚ) < 10 ^ ((toString n).length : Int) := by
  have hlength : (toString n).length = (Nat.toDigits 10 n).length := by
    rw [Nat.toString_eq_ofList_toDigits, String.length_ofList]
  have hpos : 0 < (Nat.toDigits 10 n).length := Nat.length_toDigits_pos
  rw [hlength]
  constructor
  · obtain ⟨k, hk⟩ : ∃ k : Nat, (Nat.toDigits 10 n).length = k + 1 := ⟨_, (Nat.sub_add_cancel hpos).symm⟩
    have hle : 10 ^ k ≤ n := by
      by_cases hzero : k = 0
      · subst hzero
        exact Nat.pos_of_ne_zero h
      · by_contra hlt
        have := (Nat.length_toDigits_le_iff (by decide) (Nat.pos_of_ne_zero hzero)).mpr (not_le.mp hlt)
        omega
    rw [hk, show ((k + 1 : Nat) : Int) - 1 = (k : Int) by push_cast; omega, zpow_natCast]
    exact_mod_cast hle
  · rw [zpow_natCast]
    exact_mod_cast (Nat.length_toDigits_le_iff (by decide) hpos).mp (Nat.le_refl _)

theorem two_pow_lt_ten_pow : (2 : ℚ) ^ (1089 : Int) < 10 ^ (330 : Int) := by
  have htwo : (1089 : Int) = ((33 * 33 : Nat) : Int) := by norm_num
  have hten : (330 : Int) = ((10 * 33 : Nat) : Int) := by norm_num
  rw [htwo, hten, zpow_natCast, zpow_natCast, pow_mul, pow_mul]
  exact pow_lt_pow_left₀ (by norm_num) (by norm_num) (by norm_num)

namespace Binary64

theorem value_ofDecimal {coefficient : Nat} {exponent : Int} {m : Nat} {e : Int} (hpos : 0 < m)
    (hdouble : (Reading.finite false m e).IsDouble) (h : Rounds (coefficient * 10 ^ exponent) m e) :
    value (ofDecimal false coefficient exponent) = m * 2 ^ e := by
  have hm : (1 : ℚ) ≤ m := by exact_mod_cast hpos
  have hm' : (m : ℚ) < 2 ^ (53 : Int) := by exact_mod_cast hdouble.1
  -- the number is neither too small nor too large for a double
  have hlow : (2 : ℚ) ^ (-1089 : Int) ≤ coefficient * 10 ^ exponent := by
    calc (2 : ℚ) ^ (-1089 : Int) ≤ 2 ^ (e - 1) := zpow_le_zpow_right₀ (by norm_num) (by have := hdouble.2.1; omega)
      _ = 1 / 2 * 2 ^ e := by rw [zpow_sub_one₀ (by norm_num)]; ring
      _ ≤ (m - (if m = 2 ^ 52 ∧ -1074 < e then 1 / 4 else 1 / 2)) * 2 ^ e := by
          refine mul_le_mul_of_nonneg_right ?_ (two_zpow_pos e).le
          split_ifs <;> linarith
      _ ≤ coefficient * 10 ^ exponent := h.low
  have hhigh : (coefficient : ℚ) * 10 ^ exponent ≤ 2 ^ (1089 : Int) := by
    calc (coefficient : ℚ) * 10 ^ exponent ≤ (m + 1 / 2) * 2 ^ e := h.high
      _ ≤ (2 ^ (53 : Int) + 2 ^ (53 : Int)) * 2 ^ e := by
          refine mul_le_mul_of_nonneg_right ?_ (two_zpow_pos e).le
          linarith
      _ = 2 ^ (54 + e) := by rw [← two_mul, ← zpow_one_add₀ (by norm_num), ← zpow_add₀ (by norm_num)]; norm_num
      _ ≤ 2 ^ (1089 : Int) := zpow_le_zpow_right₀ (by norm_num) (by have := hdouble.2.2.1; omega)
  have hcoefficient : coefficient ≠ 0 := by
    rintro rfl
    rw [Nat.cast_zero, zero_mul] at hlow
    exact absurd hlow (not_le.mpr (two_zpow_pos _))
  obtain ⟨hdigits, hdigits'⟩ := digits_bounds hcoefficient
  have hsmall : ¬ ((toString coefficient).length : Int) + exponent < -330 := by
    intro hsize
    have hless : (coefficient : ℚ) * 10 ^ exponent < 2 ^ (-1089 : Int) :=
      calc (coefficient : ℚ) * 10 ^ exponent < 10 ^ ((toString coefficient).length : Int) * 10 ^ exponent :=
            mul_lt_mul_of_pos_right hdigits' (ten_zpow_pos _)
        _ = 10 ^ (((toString coefficient).length : Int) + exponent) := by rw [zpow_add₀ (by norm_num)]
        _ ≤ 10 ^ (-330 : Int) := zpow_le_zpow_right₀ (by norm_num) hsize.le
        _ < 2 ^ (-1089 : Int) := by
            rw [zpow_neg, zpow_neg]
            exact inv_strictAnti₀ (two_zpow_pos _) two_pow_lt_ten_pow
    exact absurd hlow (not_le.mpr hless)
  have hlarge : ¬ 330 < ((toString coefficient).length : Int) + exponent := by
    intro hsize
    have hmore : (2 : ℚ) ^ (1089 : Int) < coefficient * 10 ^ exponent :=
      calc (2 : ℚ) ^ (1089 : Int) < 10 ^ (330 : Int) := two_pow_lt_ten_pow
        _ ≤ 10 ^ (((toString coefficient).length : Int) - 1 + exponent) := zpow_le_zpow_right₀ (by norm_num) (by omega)
        _ = 10 ^ (((toString coefficient).length : Int) - 1) * 10 ^ exponent := by rw [zpow_add₀ (by norm_num)]
        _ ≤ coefficient * 10 ^ exponent := mul_le_mul_of_nonneg_right hdigits (ten_zpow_pos _).le
    exact absurd hhigh (not_le.mpr hmore)
  simp only [ofDecimal, Nat.pow_eq]
  rw [if_neg (by simpa [hcoefficient] using hsmall), if_neg hlarge]
  split
  · next hexponent =>
    lift exponent to Nat using hexponent
    refine value_ofRatio one_ne_zero hpos hdouble ?_
    simpa using h
  · next hexponent =>
    obtain ⟨k, rfl⟩ : ∃ k : Nat, exponent = -(k : Int) := ⟨(-exponent).toNat, by omega⟩
    refine value_ofRatio (by positivity) hpos hdouble ?_
    simpa [zpow_neg, div_eq_mul_inv] using h

end Binary64

namespace Shortest

theorem interval_eq (m : Nat) (e : Int) : ∃ up den : Nat, 0 < den ∧ (up : ℚ) / den = 2 ^ e / 4 ∧
    interval m e = ⟨(4 * m - if m = 2 ^ 52 ∧ -1074 < e then 1 else 2) * up, 4 * m * up, (4 * m + 2) * up, den,
      m % 2 = 0⟩ := by
  have hquarter : (2 : ℚ) ^ e / 4 = 2 ^ (e - 2) := by
    rw [zpow_sub₀ (by norm_num)]
    norm_num
  by_cases hpower : 0 ≤ e - 2
  · refine ⟨2 ^ (e - 2).toNat, 1, Nat.one_pos, ?_, ?_⟩
    · rw [hquarter, Nat.cast_one, div_one, Nat.cast_pow, ← zpow_natCast, Int.toNat_of_nonneg hpower]
      rfl
    · simp only [interval, if_pos hpower]
      rfl
  · refine ⟨1, 2 ^ (-(e - 2)).toNat, by positivity, ?_, ?_⟩
    · rw [hquarter, Nat.cast_one, one_div, Nat.cast_pow, ← zpow_natCast, Int.toNat_of_nonneg (by omega), ← zpow_neg,
        neg_neg]
      rfl
    · simp only [interval, if_neg hpower]
      rfl

theorem interval_den_pos (m : Nat) (e : Int) : 0 < (interval m e).den := by
  obtain ⟨up, den, hden, -, heq⟩ := interval_eq m e
  rwa [heq]

theorem interval_spec {m : Nat} (hpos : 0 < m) (e : Int) :
    ((interval m e).value : ℚ) / (interval m e).den = m * 2 ^ e ∧
    ((interval m e).low : ℚ) / (interval m e).den =
      (m - (if m = 2 ^ 52 ∧ -1074 < e then 1 / 4 else 1 / 2)) * 2 ^ e ∧
    ((interval m e).high : ℚ) / (interval m e).den = (m + 1 / 2) * 2 ^ e := by
  obtain ⟨up, den, -, hscale, heq⟩ := interval_eq m e
  have hsub : ((4 * m - if m = 2 ^ 52 ∧ -1074 < e then 1 else 2 : Nat) : ℚ) =
      4 * m - (if m = 2 ^ 52 ∧ -1074 < e then 1 else 2) := by
    split_ifs <;> rw [Nat.cast_sub (by omega)] <;> push_cast <;> rfl
  rw [heq]
  simp only [Nat.cast_mul, mul_div_assoc, hscale, hsub]
  refine ⟨by push_cast; ring, ?_, by push_cast; ring⟩
  split_ifs <;> ring

theorem scaled_spec (den coefficient : Nat) (exponent : Int) :
    0 < (scaled den coefficient exponent).2 ∧
    ((scaled den coefficient exponent).1 : ℚ) / (scaled den coefficient exponent).2 = coefficient * 10 ^ exponent * den := by
  simp only [scaled, Nat.pow_eq]
  split
  · next h =>
    lift exponent to Nat using h
    exact ⟨Nat.one_pos, by push_cast; simp⟩
  · next h =>
    obtain ⟨k, rfl⟩ : ∃ k : Nat, exponent = -(k : Int) := ⟨(-exponent).toNat, by omega⟩
    refine ⟨by positivity, ?_⟩
    push_cast
    rw [neg_neg, Int.toNat_natCast, zpow_neg, zpow_natCast]
    ring

variable {i : Interval}

theorem holds_iff (hden : 0 < i.den) (coefficient : Nat) (exponent : Int) :
    i.holds coefficient exponent = true ↔
      if i.closed then (i.low : ℚ) / i.den ≤ coefficient * 10 ^ exponent ∧ coefficient * 10 ^ exponent ≤ (i.high : ℚ) / i.den
      else (i.low : ℚ) / i.den < coefficient * 10 ^ exponent ∧ coefficient * 10 ^ exponent < (i.high : ℚ) / i.den := by
  obtain ⟨hpos, hscaled⟩ := scaled_spec i.den coefficient exponent
  have hden' : (0 : ℚ) < i.den := by exact_mod_cast hden
  have hpos' : (0 : ℚ) < (scaled i.den coefficient exponent).2 := by exact_mod_cast hpos
  rw [div_le_iff₀ hden', le_div_iff₀ hden', div_lt_iff₀ hden', lt_div_iff₀ hden', ← hscaled, le_div_iff₀ hpos',
    div_le_iff₀ hpos', lt_div_iff₀ hpos', div_lt_iff₀ hpos']
  simp only [Interval.holds]
  split
  · simp only [Bool.and_eq_true, decide_eq_true_eq]
    norm_cast
  · simp only [Bool.and_eq_true, decide_eq_true_eq]
    norm_cast

theorem floor_spec (hden : 0 < i.den) (exponent : Int) :
    (i.floor exponent : ℚ) * 10 ^ exponent ≤ i.value / i.den ∧
    (i.value : ℚ) / i.den < (i.floor exponent + 1) * 10 ^ exponent := by
  have hden' : (0 : ℚ) < i.den := by exact_mod_cast hden
  simp only [Interval.floor, Nat.pow_eq]
  split
  · next h =>
    lift exponent to Nat using h
    rw [Int.toNat_natCast, zpow_natCast]
    have hunit : 0 < i.den * 10 ^ exponent := by positivity
    have hle := Nat.div_mul_le_self i.value (i.den * 10 ^ exponent)
    have hlt := Nat.lt_mul_div_succ i.value hunit
    generalize i.value / (i.den * 10 ^ exponent) = n at hle hlt ⊢
    rw [le_div_iff₀ hden', div_lt_iff₀ hden']
    have hle' : (n : ℚ) * (i.den * 10 ^ exponent) ≤ i.value := by exact_mod_cast hle
    have hlt' : (i.value : ℚ) < i.den * 10 ^ exponent * (n + 1) := by exact_mod_cast hlt
    constructor <;> linarith
  · next h =>
    obtain ⟨k, rfl⟩ : ∃ k : Nat, exponent = -(k : Int) := ⟨(-exponent).toNat, by omega⟩
    rw [neg_neg, Int.toNat_natCast, zpow_neg, zpow_natCast]
    have hle := Nat.div_mul_le_self (i.value * 10 ^ k) i.den
    have hlt := Nat.lt_mul_div_succ (i.value * 10 ^ k) hden
    generalize i.value * 10 ^ k / i.den = n at hle hlt ⊢
    have hpow : (0 : ℚ) < 10 ^ k := by positivity
    have hle' : (n : ℚ) * i.den ≤ i.value * 10 ^ k := by exact_mod_cast hle
    have hlt' : (i.value : ℚ) * 10 ^ k < i.den * (n + 1) := by exact_mod_cast hlt
    rw [← div_eq_mul_inv, ← div_eq_mul_inv, div_le_div_iff₀ hpow hden', div_lt_div_iff₀ hden' hpow]
    exact ⟨hle', by linarith⟩

theorem power_spec (hden : 0 < i.den) (hvalue : 0 < i.value) :
    (10 : ℚ) ^ (i.power - 1) ≤ i.value / i.den ∧ (i.value : ℚ) / i.den < 10 ^ i.power := by
  have hden' : (0 : ℚ) < i.den := by exact_mod_cast hden
  obtain ⟨hvalue₁, hvalue₂⟩ := digits_bounds (Nat.ne_of_gt hvalue)
  obtain ⟨hden₁, hden₂⟩ := digits_bounds (Nat.ne_of_gt hden)
  obtain ⟨guess, hguess⟩ : ∃ g : Int, g = ((toString i.value).length : Int) - (toString i.den).length := ⟨_, rfl⟩
  have hlow : (10 : ℚ) ^ (guess - 1) ≤ i.value / i.den := by
    rw [le_div_iff₀ hden']
    calc (10 : ℚ) ^ (guess - 1) * i.den ≤ 10 ^ (guess - 1) * 10 ^ ((toString i.den).length : Int) :=
          mul_le_mul_of_nonneg_left hden₂.le (ten_zpow_pos _).le
      _ = 10 ^ (((toString i.value).length : Int) - 1) := by rw [← zpow_add₀ (by norm_num), hguess]; congr 1; omega
      _ ≤ i.value := hvalue₁
  have hhigh : (i.value : ℚ) / i.den < 10 ^ (guess + 1) := by
    rw [div_lt_iff₀ hden']
    calc (i.value : ℚ) < 10 ^ ((toString i.value).length : Int) := hvalue₂
      _ = 10 ^ (guess + 1) * 10 ^ (((toString i.den).length : Int) - 1) := by
          rw [← zpow_add₀ (by norm_num), hguess]; congr 1; omega
      _ ≤ 10 ^ (guess + 1) * i.den := mul_le_mul_of_nonneg_left hden₁ (ten_zpow_pos _).le
  have hcompare : (scaled i.den 1 guess).1 ≤ i.value * (scaled i.den 1 guess).2 ↔ (10 : ℚ) ^ guess ≤ i.value / i.den := by
    obtain ⟨hpos, hscaled⟩ := scaled_spec i.den 1 guess
    have hpos' : (0 : ℚ) < (scaled i.den 1 guess).2 := by exact_mod_cast hpos
    rw [Nat.cast_one, one_mul] at hscaled
    rw [le_div_iff₀ hden', ← hscaled, div_le_iff₀ hpos']
    norm_cast
  have hpower : i.power =
      if (scaled i.den 1 guess).1 ≤ i.value * (scaled i.den 1 guess).2 then guess + 1 else guess := by
    rw [hguess]
    rfl
  rw [hpower]
  by_cases h : (10 : ℚ) ^ guess ≤ i.value / i.den
  · rw [if_pos (hcompare.mpr h), add_sub_cancel_right]
    exact ⟨h, hhigh⟩
  · rw [if_neg (hcompare.not.mpr h)]
    exact ⟨hlow, not_le.mp h⟩

/-- Whether a neighbour of the value on the grid of `count` digits lies in the interval. -/
def Interval.hits (i : Interval) (power : Int) (count : Nat) : Prop :=
  i.holds (i.floor (power - count)) (power - count) = true ∨ i.holds (i.floor (power - count) + 1) (power - count) = true

theorem search_spec {power : Int} {fuel count last : Nat} (hcount : count ≤ last) (hlast : last < count + fuel)
    (hhits : i.hits power last) : ∃ n ≤ last, (i.search power fuel count).exponent = power - n ∧
      i.holds (i.search power fuel count).coefficient (i.search power fuel count).exponent = true := by
  induction fuel generalizing count with
  | zero => omega
  | succ fuel ih =>
    simp only [Interval.search]
    cases hbelow : i.holds (i.floor (power - count)) (power - count) with
    | true =>
      cases habove : i.holds (i.floor (power - count) + 1) (power - count) with
      | true =>
        refine ⟨count, hcount, rfl, ?_⟩
        show i.holds (if i.upperNearer _ _ then _ else _) _ = true
        split
        · exact habove
        · exact hbelow
      | false => exact ⟨count, hcount, rfl, hbelow⟩
    | false =>
      cases habove : i.holds (i.floor (power - count) + 1) (power - count) with
      | true => exact ⟨count, hcount, rfl, habove⟩
      | false =>
        have hne : count ≠ last := by
          rintro rfl
          rcases hhits with h | h
          · rw [hbelow] at h
            exact nomatch h
          · rw [habove] at h
            exact nomatch h
        exact ih (by omega) (by omega)

theorem hits_of_fine (hden : 0 < i.den) {power : Int} {count : Nat}
    (hlow : (i.low : ℚ) / i.den < i.value / i.den) (hhigh : (i.value : ℚ) / i.den < i.high / i.den)
    (hfine : (10 : ℚ) ^ (power - count) < i.high / i.den - i.low / i.den) : i.hits power count := by
  obtain ⟨hbelow, habove⟩ := floor_spec hden (power - count)
  by_contra hmiss
  obtain ⟨hmiss₁, hmiss₂⟩ := not_or.mp hmiss
  rw [holds_iff hden] at hmiss₁ hmiss₂
  push_cast at hmiss₂
  -- a neighbour outside of the interval lies beyond its end
  have hbelow' : (i.floor (power - count) : ℚ) * 10 ^ (power - count) ≤ i.low / i.den := by
    split at hmiss₁
    · by_contra h
      exact hmiss₁ ⟨(not_le.mp h).le, hbelow.trans hhigh.le⟩
    · by_contra h
      exact hmiss₁ ⟨not_le.mp h, lt_of_le_of_lt hbelow hhigh⟩
  have habove' : (i.high : ℚ) / i.den ≤ (i.floor (power - count) + 1) * 10 ^ (power - count) := by
    split at hmiss₂
    · by_contra h
      exact hmiss₂ ⟨hlow.le.trans habove.le, (not_le.mp h).le⟩
    · by_contra h
      exact hmiss₂ ⟨hlow.trans habove, not_le.mp h⟩
  linarith

theorem strip_spec (fuel : Nat) (d : Decimal) : (strip fuel d).value = d.value ∧ d.exponent ≤ (strip fuel d).exponent := by
  induction fuel generalizing d with
  | zero => exact ⟨rfl, le_refl _⟩
  | succ fuel ih =>
    simp only [strip]
    split
    · next h =>
      obtain ⟨hvalue, hexponent⟩ := ih ⟨d.coefficient / 10, d.exponent + 1⟩
      refine ⟨hvalue.trans ?_, ?_⟩
      · have hten : (d.coefficient : ℚ) = (d.coefficient / 10 : Nat) * 10 := by
          exact_mod_cast (Nat.div_mul_cancel (Nat.dvd_of_mod_eq_zero h.2)).symm
        simp only [Decimal.value]
        rw [hten, zpow_add_one₀ (by norm_num)]
        ring
      · simp only at hexponent
        omega
    · exact ⟨rfl, le_refl _⟩

end Shortest

section

variable {m : Nat} {e : Int}

theorem interval_value_pos (hpos : 0 < m) (e : Int) : 0 < (Shortest.interval m e).value := by
  have hvalue := (Shortest.interval_spec hpos e).1
  have hm : (0 : ℚ) < m := by exact_mod_cast hpos
  have hne : (0 : ℚ) < (Shortest.interval m e).value / (Shortest.interval m e).den := by
    rw [hvalue]
    exact mul_pos hm (two_zpow_pos e)
  by_contra h
  rw [Nat.eq_zero_of_not_pos h, Nat.cast_zero, zero_div] at hne
  exact lt_irrefl _ hne

theorem interval_low_lt (hpos : 0 < m) (e : Int) :
    ((Shortest.interval m e).low : ℚ) / (Shortest.interval m e).den <
      (Shortest.interval m e).value / (Shortest.interval m e).den := by
  obtain ⟨hvalue, hlow, -⟩ := Shortest.interval_spec hpos e
  rw [hvalue, hlow]
  refine mul_lt_mul_of_pos_right ?_ (two_zpow_pos e)
  split_ifs <;> linarith

theorem interval_lt_high (hpos : 0 < m) (e : Int) :
    ((Shortest.interval m e).value : ℚ) / (Shortest.interval m e).den <
      (Shortest.interval m e).high / (Shortest.interval m e).den := by
  obtain ⟨hvalue, -, hhigh⟩ := Shortest.interval_spec hpos e
  rw [hvalue, hhigh]
  exact mul_lt_mul_of_pos_right (by linarith) (two_zpow_pos e)

theorem interval_hits (hpos : 0 < m) (hm : m < 2 ^ 53) (e : Int) :
    (Shortest.interval m e).hits (Shortest.interval m e).power 17 := by
  obtain ⟨hvalue, hlow, hhigh⟩ := Shortest.interval_spec hpos e
  have hden := Shortest.interval_den_pos m e
  obtain ⟨hpower, -⟩ := Shortest.power_spec hden (interval_value_pos hpos e)
  refine Shortest.hits_of_fine hden (interval_low_lt hpos e) (interval_lt_high hpos e) ?_
  generalize (Shortest.interval m e).power = power at hpower
  have hm' : (m : ℚ) < 2 ^ 53 := by exact_mod_cast hm
  have hunit : (10 : ℚ) ^ (power - (17 : Nat)) ≤ m / 10 ^ 16 * 2 ^ e := by
    calc (10 : ℚ) ^ (power - (17 : Nat)) = 10 ^ (power - 1) / 10 ^ 16 := by
          rw [show power - ((17 : Nat) : Int) = power - 1 - (16 : Nat) by push_cast; omega, zpow_sub₀ (by norm_num),
            zpow_natCast]
      _ ≤ m * 2 ^ e / 10 ^ 16 := by
          rw [hvalue] at hpower
          exact div_le_div_of_nonneg_right hpower (by norm_num)
      _ = m / 10 ^ 16 * 2 ^ e := by ring
  rw [hlow, hhigh, ← sub_mul]
  refine lt_of_le_of_lt hunit (mul_lt_mul_of_pos_right ?_ (two_zpow_pos e))
  rw [div_lt_iff₀ (by norm_num)]
  split_ifs with hnarrow
  · have hm52 : (m : ℚ) = 2 ^ 52 := by exact_mod_cast hnarrow.1
    rw [hm52]
    norm_num
  · linarith

theorem shortest_spec (hpos : 0 < m) {last : Nat} (hfirst : 1 ≤ last) (hlast : last ≤ 17)
    (hhits : (Shortest.interval m e).hits (Shortest.interval m e).power last) :
    (Shortest.interval m e).power - last ≤ (shortest m e).exponent ∧
    ∃ d : Decimal, (Shortest.interval m e).holds d.coefficient d.exponent = true ∧ (shortest m e).value = d.value := by
  obtain ⟨n, hn, hexponent, hholds⟩ := Shortest.search_spec hfirst (show last < 1 + 17 by omega) hhits
  have hshortest : shortest m e = Shortest.strip 20
      ((Shortest.interval m e).search (Shortest.interval m e).power 17 1) := if_neg (Nat.ne_of_gt hpos)
  obtain ⟨hvalue, hexponent'⟩ := Shortest.strip_spec 20 ((Shortest.interval m e).search (Shortest.interval m e).power 17 1)
  rw [hshortest]
  exact ⟨by omega, _, hholds, hvalue⟩

theorem rounds_shortest (hpos : 0 < m) (hm : m < 2 ^ 53) : Rounds (shortest m e).value m e := by
  obtain ⟨-, d, hholds, hvalue⟩ := shortest_spec hpos (by decide) (le_refl 17) (interval_hits hpos hm e)
  obtain ⟨-, hlow, hhigh⟩ := Shortest.interval_spec hpos e
  have hclosed : (Shortest.interval m e).closed = decide (m % 2 = 0) := by
    obtain ⟨up, den, -, -, heq⟩ := Shortest.interval_eq m e
    rw [heq]
  rw [Shortest.holds_iff (Shortest.interval_den_pos m e), hlow, hhigh, hclosed] at hholds
  rw [hvalue, Decimal.value]
  by_cases heven : m % 2 = 0
  · rw [decide_eq_true heven, if_pos rfl] at hholds
    exact ⟨hholds.1, hholds.2, fun hodd => by omega⟩
  · rw [decide_eq_false heven, if_neg (by decide)] at hholds
    refine ⟨hholds.1.le, hholds.2.le, fun _ => ⟨?_, hholds.2⟩⟩
    have hnarrow : ¬ (m = 2 ^ 52 ∧ -1074 < e) := by
      rintro ⟨rfl, -⟩
      exact heven rfl
    rw [if_neg hnarrow] at hholds
    exact hholds.1

/-- The shortest digits of an integer of at most sixteen digits have no fraction. -/
theorem shortest_exponent_nonneg (hpos : 0 < m) {n : Nat} (hn : (m : ℚ) * 2 ^ e = n) (hsize : n < 10 ^ 16) :
    0 ≤ (shortest m e).exponent := by
  obtain ⟨hvalue, -, -⟩ := Shortest.interval_spec hpos e
  have hden := Shortest.interval_den_pos m e
  obtain ⟨hpower, hpower'⟩ := Shortest.power_spec hden (interval_value_pos hpos e)
  rw [hvalue, hn] at hpower hpower'
  have hm : (0 : ℚ) < m := by exact_mod_cast hpos
  have hone : (1 : ℚ) ≤ n := by
    have hn' : (0 : ℚ) < n := hn ▸ mul_pos hm (two_zpow_pos e)
    exact_mod_cast hn'
  have hsize' : (n : ℚ) < 10 ^ (16 : Int) := by exact_mod_cast hsize
  have hleast : 0 < (Shortest.interval m e).power :=
    (zpow_lt_zpow_iff_right₀ (show (1 : ℚ) < 10 by norm_num)).mp (by rw [zpow_zero]; linarith)
  have hmost : (Shortest.interval m e).power - 1 < 16 :=
    (zpow_lt_zpow_iff_right₀ (show (1 : ℚ) < 10 by norm_num)).mp (lt_of_le_of_lt hpower hsize')
  -- the integer itself is a point of the grid of units
  obtain ⟨last, hlast⟩ : ∃ k : Nat, (Shortest.interval m e).power = k := ⟨_, (Int.toNat_of_nonneg hleast.le).symm⟩
  have hhits : (Shortest.interval m e).hits (Shortest.interval m e).power last := by
    have hunit : (Shortest.interval m e).power - last = 0 := by omega
    obtain ⟨hfloor, hfloor'⟩ := Shortest.floor_spec hden 0
    rw [zpow_zero, mul_one, hvalue, hn] at hfloor hfloor'
    have hfloor_eq : (Shortest.interval m e).floor 0 = n := by
      have h1 : (Shortest.interval m e).floor 0 ≤ n := by exact_mod_cast hfloor
      have h2 : n < (Shortest.interval m e).floor 0 + 1 := by exact_mod_cast hfloor'
      omega
    left
    rw [hunit, hfloor_eq, Shortest.holds_iff hden, zpow_zero, mul_one, ← hn, ← hvalue]
    have hlow := interval_low_lt hpos e
    have hhigh := interval_lt_high hpos e
    split
    · exact ⟨hlow.le, hhigh.le⟩
    · exact ⟨hlow, hhigh⟩
  have hexponent := (shortest_spec hpos (by omega) (by omega) hhits).1
  omega

/-- An integer that rounds to a double without integral units is the double. -/
theorem eq_of_rounds {n : Nat} (he : e ≤ 0) (h : Rounds n m e) : (n : ℚ) = m * 2 ^ e := by
  obtain ⟨k, rfl⟩ : ∃ k : Nat, e = -(k : Int) := ⟨(-e).toNat, by omega⟩
  have hpow : (0 : ℚ) < 2 ^ k := by positivity
  have hlow : ((m : ℚ) - 1 / 2) * 2 ^ (-(k : Int)) ≤ n := by
    refine le_trans (mul_le_mul_of_nonneg_right ?_ (two_zpow_pos _).le) h.low
    split_ifs <;> linarith
  have hhigh := h.high
  rw [zpow_neg, zpow_natCast, ← div_eq_mul_inv] at hlow hhigh ⊢
  rw [div_le_iff₀ hpow] at hlow
  rw [le_div_iff₀ hpow] at hhigh
  rw [eq_div_iff hpow.ne']
  have h1 : m < n * 2 ^ k + 1 := by
    have : (m : ℚ) < n * 2 ^ k + 1 := by linarith
    exact_mod_cast this
  have h2 : n * 2 ^ k < m + 1 := by
    have : (n : ℚ) * 2 ^ k < m + 1 := by linarith
    exact_mod_cast this
  have h3 : n * 2 ^ k = m := by omega
  exact_mod_cast h3

end

end ShelfQuery.Number
