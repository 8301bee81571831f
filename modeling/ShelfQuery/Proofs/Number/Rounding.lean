import ShelfQuery.Proofs.Number.Nearest

set_option autoImplicit false

/-!
# The numbers that round to a double

`Rounds q m e` says that the number `q` lies in the interval around `m * 2 ^ e` whose numbers round to it.
-/

namespace ShelfQuery.Number

variable {num den m : Nat} {e : Int}

/-- The interval, in quarters of the last place, is narrower below a power of two. -/
structure Rounds (q : ℚ) (m : Nat) (e : Int) : Prop where
  low : ((m : ℚ) - (if m = 2 ^ 52 ∧ -1074 < e then 1 / 4 else 1 / 2)) * 2 ^ e ≤ q
  high : q ≤ (m + 1 / 2) * 2 ^ e
  odd : m % 2 = 1 → (m - 1 / 2) * 2 ^ e < q ∧ q < (m + 1 / 2) * 2 ^ e

theorem two_zpow_pos (e : Int) : (0 : ℚ) < 2 ^ e := zpow_pos (by norm_num) e

/-- A quotient within a half of `m`, and nearer than that if `m` is odd, is rounded to `m`. -/
theorem roundHalfEven_eq (hden : 0 < den) (hlow : (m : ℚ) - 1 / 2 ≤ num / den) (hhigh : (num : ℚ) / den ≤ m + 1 / 2)
    (hodd : m % 2 = 1 → (m : ℚ) - 1 / 2 < num / den ∧ (num : ℚ) / den < m + 1 / 2) : roundHalfEven num den = m := by
  have hden' : (0 : ℚ) < den := by exact_mod_cast hden
  rw [le_div_iff₀ hden'] at hlow
  rw [div_le_iff₀ hden'] at hhigh
  rw [lt_div_iff₀ hden', div_lt_iff₀ hden'] at hodd
  -- the same bounds without fractions
  have hlow' : 2 * (den * m) ≤ 2 * num + den := by
    have h : (2 * (den * m) : ℚ) ≤ 2 * num + den := by linarith
    exact_mod_cast h
  have hhigh' : 2 * num ≤ 2 * (den * m) + den := by
    have h : (2 * num : ℚ) ≤ 2 * (den * m) + den := by linarith
    exact_mod_cast h
  have hodd' : m % 2 = 1 → 2 * (den * m) < 2 * num + den ∧ 2 * num < 2 * (den * m) + den := by
    intro hm
    obtain ⟨h, h'⟩ := hodd hm
    have h1 : (2 * (den * m) : ℚ) < 2 * num + den := by linarith
    have h2 : (2 * num : ℚ) < 2 * (den * m) + den := by linarith
    exact ⟨by exact_mod_cast h1, by exact_mod_cast h2⟩
  have hdiv := Nat.div_add_mod num den
  have hmod := Nat.mod_lt num hden
  simp only [roundHalfEven]
  generalize num / den = quotient at *
  generalize num % den = remainder at *
  have hcases : quotient = m ∨ quotient + 1 = m := by
    have hle : quotient < m + 1 := by
      by_contra h
      have := Nat.mul_le_mul_left den (show m + 1 ≤ quotient by omega)
      rw [Nat.mul_add] at this
      omega
    have hge : m < quotient + 2 := by
      by_contra h
      have := Nat.mul_le_mul_left den (show quotient + 2 ≤ m by omega)
      rw [Nat.mul_add] at this
      omega
    omega
  rcases hcases with rfl | rfl
  · split_ifs <;> omega
  · rw [Nat.mul_add] at hlow' hhigh' hodd'
    split_ifs <;> omega

namespace Binary64

theorem scale_den_pos (hden : 0 < den) (power : Int) : 0 < (scale num den power).2 := by
  simp only [scale, Nat.pow_eq]
  split
  · exact hden
  · positivity

theorem scale_div (num den : Nat) (power : Int) :
    ((scale num den power).1 : ℚ) / (scale num den power).2 = num / den * 2 ^ power := by
  simp only [scale, Nat.pow_eq]
  split
  · next h =>
    lift power to Nat using h
    push_cast
    rw [Int.toNat_natCast, zpow_natCast]
    ring
  · next h =>
    obtain ⟨k, rfl⟩ : ∃ k : Nat, power = -(k : Int) := ⟨(-power).toNat, by omega⟩
    push_cast
    rw [neg_neg, Int.toNat_natCast, zpow_neg, zpow_natCast, div_mul_eq_div_div, div_eq_mul_inv]

theorem log2_bounds {n : Nat} (h : n ≠ 0) : (2 : ℚ) ^ (Nat.log2 n : Int) ≤ n ∧ (n : ℚ) < 2 ^ ((Nat.log2 n : Int) + 1) := by
  have hlow : 2 ^ Nat.log2 n ≤ n := Nat.log2_self_le h
  have hhigh : n < 2 ^ (Nat.log2 n + 1) := Nat.lt_log2_self
  constructor
  · rw [zpow_natCast]
    exact_mod_cast hlow
  · have hcast : ((Nat.log2 n : Int) + 1) = ((Nat.log2 n + 1 : Nat) : Int) := by push_cast; rfl
    rw [hcast, zpow_natCast]
    exact_mod_cast hhigh

theorem div_bounds (hnum : num ≠ 0) (hden : den ≠ 0) :
    (2 : ℚ) ^ ((Nat.log2 num : Int) - Nat.log2 den - 1) < num / den ∧
    (num : ℚ) / den < 2 ^ ((Nat.log2 num : Int) - Nat.log2 den + 1) := by
  obtain ⟨hnum₁, hnum₂⟩ := log2_bounds hnum
  obtain ⟨hden₁, hden₂⟩ := log2_bounds hden
  have hpos : (0 : ℚ) < den := lt_of_lt_of_le (two_zpow_pos _) hden₁
  rw [lt_div_iff₀ hpos, div_lt_iff₀ hpos]
  constructor
  · calc (2 : ℚ) ^ ((Nat.log2 num : Int) - Nat.log2 den - 1) * den
        < 2 ^ ((Nat.log2 num : Int) - Nat.log2 den - 1) * 2 ^ ((Nat.log2 den : Int) + 1) :=
          mul_lt_mul_of_pos_left hden₂ (two_zpow_pos _)
      _ = 2 ^ (Nat.log2 num : Int) := by rw [← zpow_add₀ (by norm_num)]; congr 1; omega
      _ ≤ num := hnum₁
  · calc (num : ℚ) < 2 ^ ((Nat.log2 num : Int) + 1) := hnum₂
      _ = 2 ^ ((Nat.log2 num : Int) - Nat.log2 den + 1) * 2 ^ (Nat.log2 den : Int) := by
          rw [← zpow_add₀ (by norm_num)]; congr 1; omega
      _ ≤ 2 ^ ((Nat.log2 num : Int) - Nat.log2 den + 1) * den :=
          mul_le_mul_of_nonneg_left hden₁ (two_zpow_pos _).le

/-- The last place of a positive quotient: the quotient has 53 digits before it, or fewer if it is
the least place that there is. -/
theorem lastPlace_spec (hnum : num ≠ 0) (hden : den ≠ 0) :
    -1074 ≤ lastPlace num den ∧ (num : ℚ) / den * 2 ^ (-lastPlace num den) < 2 ^ 53 ∧
    (2 ^ 52 ≤ (num : ℚ) / den * 2 ^ (-lastPlace num den) ∨ lastPlace num den = -1074) := by
  obtain ⟨hlow, hhigh⟩ := div_bounds hnum hden
  have hpos : (0 : ℚ) < num / den := (two_zpow_pos _).trans hlow
  obtain ⟨guess, hguess⟩ : ∃ g : Int, g = (Nat.log2 num : Int) - Nat.log2 den - 52 := ⟨_, rfl⟩
  -- the quotient in units of the guessed place
  have hmore : 2 ^ 51 < (num : ℚ) / den * 2 ^ (-guess) := by
    calc (2 : ℚ) ^ 51 = 2 ^ ((Nat.log2 num : Int) - Nat.log2 den - 1) * 2 ^ (-guess) := by
          rw [← zpow_add₀ (by norm_num), hguess, ← zpow_natCast]; congr 1; push_cast; omega
      _ < num / den * 2 ^ (-guess) := mul_lt_mul_of_pos_right hlow (two_zpow_pos _)
  have hless : (num : ℚ) / den * 2 ^ (-guess) < 2 ^ 53 := by
    calc (num : ℚ) / den * 2 ^ (-guess)
        < 2 ^ ((Nat.log2 num : Int) - Nat.log2 den + 1) * 2 ^ (-guess) :=
          mul_lt_mul_of_pos_right hhigh (two_zpow_pos _)
      _ = 2 ^ 53 := by rw [← zpow_add₀ (by norm_num), hguess, ← zpow_natCast]; congr 1; push_cast; omega
  have hcompare : (scale num den (-guess)).1 < (scale num den (-guess)).2 * 2 ^ 52 ↔
      (num : ℚ) / den * 2 ^ (-guess) < 2 ^ 52 := by
    have hscaled : (0 : ℚ) < (scale num den (-guess)).2 := by
      exact_mod_cast scale_den_pos (Nat.pos_of_ne_zero hden) (-guess)
    rw [← scale_div, div_lt_iff₀ hscaled, mul_comm]
    norm_cast
  have hlast : lastPlace num den =
      max (if (scale num den (-guess)).1 < (scale num den (-guess)).2 * 2 ^ 52 then guess - 1 else guess) (-1074) := by
    rw [hguess]
    rfl
  obtain ⟨place, hplace, hplace₁, hplace₂⟩ : ∃ place : Int, lastPlace num den = max place (-1074) ∧
      2 ^ 52 ≤ (num : ℚ) / den * 2 ^ (-place) ∧ (num : ℚ) / den * 2 ^ (-place) < 2 ^ 53 := by
    by_cases h : (num : ℚ) / den * 2 ^ (-guess) < 2 ^ 52
    · refine ⟨guess - 1, by rw [hlast, if_pos (hcompare.mpr h)], ?_⟩
      · have hstep : (num : ℚ) / den * 2 ^ (-(guess - 1)) = 2 * (num / den * 2 ^ (-guess)) := by
          rw [show -(guess - 1) = 1 + -guess by omega, zpow_add₀ (by norm_num)]
          ring
        rw [hstep]
        constructor <;> linarith
    · exact ⟨guess, by rw [hlast, if_neg (hcompare.not.mpr h)], not_lt.mp h, hless⟩
  rw [hplace]
  rcases le_total place (-1074) with h | h
  · rw [max_eq_right h]
    refine ⟨le_refl _, lt_of_le_of_lt ?_ hplace₂, .inr rfl⟩
    exact mul_le_mul_of_nonneg_left (zpow_le_zpow_right₀ (by norm_num) (by omega)) hpos.le
  · rw [max_eq_left h]
    exact ⟨h, hplace₂, .inl hplace₁⟩

theorem lastPlace_unique (hnum : num ≠ 0) (hden : den ≠ 0) (he : -1074 ≤ e)
    (hhigh : (num : ℚ) / den * 2 ^ (-e) < 2 ^ 53) (hlow : 2 ^ 52 ≤ (num : ℚ) / den * 2 ^ (-e) ∨ e = -1074) :
    lastPlace num den = e := by
  obtain ⟨hlast, hlast₁, hlast₂⟩ := lastPlace_spec hnum hden
  generalize lastPlace num den = place at hlast hlast₁ hlast₂
  have hpos : (0 : ℚ) < num / den := div_pos (by positivity) (by positivity)
  -- in a larger place a number is at most half as large
  have hhalf {i j : Int} (hij : i < j) : 2 * ((num : ℚ) / den * 2 ^ (-j)) ≤ num / den * 2 ^ (-i) := by
    calc 2 * ((num : ℚ) / den * 2 ^ (-j)) = num / den * 2 ^ (1 + -j) := by rw [zpow_add₀ (by norm_num)]; ring
      _ ≤ num / den * 2 ^ (-i) := mul_le_mul_of_nonneg_left (zpow_le_zpow_right₀ (by norm_num) (by omega)) hpos.le
  rcases lt_trichotomy place e with h | h | h
  · have := hhalf h
    rcases hlow with hlow | hlow
    · linarith
    · omega
  · exact h
  · have := hhalf h
    rcases hlast₂ with hlast₂ | hlast₂
    · linarith
    · omega

theorem nearestMantissa_eq (hden : den ≠ 0) (he : lastPlace num den = e)
    (hlow : (m : ℚ) - 1 / 2 ≤ num / den * 2 ^ (-e)) (hhigh : (num : ℚ) / den * 2 ^ (-e) ≤ m + 1 / 2)
    (hodd : m % 2 = 1 → (m : ℚ) - 1 / 2 < num / den * 2 ^ (-e) ∧ (num : ℚ) / den * 2 ^ (-e) < m + 1 / 2) :
    nearestMantissa num den = m := by
  simp only [nearestMantissa, he]
  rw [← scale_div] at hlow hhigh hodd
  exact roundHalfEven_eq (scale_den_pos (Nat.pos_of_ne_zero hden) (-e)) hlow hhigh hodd

theorem packCarried_of_rounds (hden : den ≠ 0) (hpos : 0 < m)
    (hdouble : (Reading.finite false m e).IsDouble) (h : Rounds (num / den) m e) :
    num ≠ 0 ∧ packCarried (nearestMantissa num den) (lastPlace num den) = pack m e := by
  obtain ⟨hm, he, -, hnormal⟩ := hdouble
  obtain ⟨hlow, hhigh, hodd⟩ := h
  have hm' : (m : ℚ) ≤ 2 ^ 53 - 1 := by
    have hle : m + 1 ≤ 2 ^ 53 := hm
    have hle' : (m : ℚ) + 1 ≤ 2 ^ 53 := by exact_mod_cast hle
    linarith
  have hpos' : (1 : ℚ) ≤ m := by exact_mod_cast hpos
  -- everything in units of the last place
  obtain ⟨t, ht⟩ : ∃ t : ℚ, t = (num : ℚ) / den * 2 ^ (-e) := ⟨_, rfl⟩
  have hq : (num : ℚ) / den = t * 2 ^ e := by
    rw [ht, mul_assoc, ← zpow_add₀ (by norm_num), neg_add_cancel, zpow_zero, mul_one]
  rw [hq] at hlow hhigh hodd
  have hlow' := le_of_mul_le_mul_right hlow (two_zpow_pos e)
  have hhigh' := le_of_mul_le_mul_right hhigh (two_zpow_pos e)
  have hodd' (h : m % 2 = 1) : (m : ℚ) - 1 / 2 < t ∧ t < m + 1 / 2 :=
    ⟨lt_of_mul_lt_mul_right (hodd h).1 (two_zpow_pos e).le, lt_of_mul_lt_mul_right (hodd h).2 (two_zpow_pos e).le⟩
  have hhalf : (m : ℚ) - 1 / 2 ≤ t := by
    refine le_trans ?_ hlow'
    split_ifs <;> linarith
  have hnum : num ≠ 0 := by
    rintro rfl
    rw [Nat.cast_zero, zero_div, zero_mul] at ht
    linarith
  refine ⟨hnum, ?_⟩
  by_cases hplace : 2 ^ 52 ≤ t ∨ e = -1074
  · have hlast : lastPlace num den = e := lastPlace_unique hnum hden he (by rw [← ht]; linarith) (by rwa [← ht])
    rw [ht] at hhalf hhigh' hodd'
    rw [nearestMantissa_eq hden hlast hhalf hhigh' hodd', hlast, packCarried, if_neg]
    simp only [mantissaBits, Nat.pow_eq]
    omega
  · -- just below a power of two the last place is a smaller one, and rounding carries
    obtain ⟨hsmall, hleast⟩ := not_or.mp hplace
    have hpower : m = 2 ^ 52 := by
      have hge : 2 ^ 52 ≤ m := hnormal.resolve_right hleast
      have hle : (m : ℚ) < 2 ^ 52 + 1 := by linarith
      have hle' : m < 2 ^ 52 + 1 := by exact_mod_cast hle
      omega
    rw [if_pos ⟨hpower, by omega⟩] at hlow'
    have hm52 : (m : ℚ) = 2 ^ 52 := by exact_mod_cast hpower
    have hdouble : (num : ℚ) / den * 2 ^ (-(e - 1)) = 2 * t := by
      rw [ht, show -(e - 1) = 1 + -e by omega, zpow_add₀ (by norm_num)]
      ring
    have hlast : lastPlace num den = e - 1 :=
      lastPlace_unique hnum hden (by omega) (by rw [hdouble]; linarith) (.inl (by rw [hdouble]; linarith))
    have hcarried : nearestMantissa num den = 2 ^ 53 := by
      refine nearestMantissa_eq hden hlast ?_ ?_ fun hfalse => absurd hfalse (by decide)
      · rw [hdouble]
        push_cast
        linarith
      · rw [hdouble]
        push_cast
        linarith
    have hcarry : 2 ^ 53 = Nat.pow 2 (mantissaBits + 1) := rfl
    rw [hcarried, hlast, packCarried, if_pos hcarry, hpower, sub_add_cancel]
    rfl

theorem value_ofRatio (hden : den ≠ 0) (hpos : 0 < m)
    (hdouble : (Reading.finite false m e).IsDouble) (h : Rounds (num / den) m e) :
    value (ofRatio false num den) = m * 2 ^ e := by
  obtain ⟨hnum, hpack⟩ := packCarried_of_rounds hden hpos hdouble h
  have hbits : (if false = true then 2 ^ 63 else 0) + pack m e < 2 ^ 64 := by
    have := pack_lt hdouble.1 e
    rw [if_neg (by decide)]
    omega
  simp only [ofRatio, if_neg hnum, hpack, Nat.pow_eq]
  rw [value_ofBits, UInt64.toNat_ofNat_of_lt' hbits, readBits_packed hdouble]
  simp [Reading.value]

end Binary64

end ShelfQuery.Number
