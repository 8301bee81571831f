import ShelfQuery.Proofs.Number.Double

set_option autoImplicit false

namespace ShelfQuery.Number

theorem le_roundHalfEven (num den : Nat) : num / den ≤ roundHalfEven num den := by
  simp only [roundHalfEven]
  split_ifs <;> omega

theorem roundHalfEven_le (num den : Nat) : roundHalfEven num den ≤ num / den + 1 := by
  simp only [roundHalfEven]
  split_ifs <;> omega

namespace Binary64

theorem scale_bounds {num : Nat} (h : num ≠ 0) :
    0 < (scale num 1 (52 - (Nat.log2 num : Int))).2 ∧
    (scale num 1 (52 - (Nat.log2 num : Int))).2 * 2 ^ 52 ≤ (scale num 1 (52 - (Nat.log2 num : Int))).1 ∧
    (scale num 1 (52 - (Nat.log2 num : Int))).1 < (scale num 1 (52 - (Nat.log2 num : Int))).2 * 2 ^ 53 := by
  have hlow : 2 ^ Nat.log2 num ≤ num := Nat.log2_self_le h
  have hhigh : num < 2 ^ (Nat.log2 num + 1) := Nat.lt_log2_self
  generalize Nat.log2 num = k at hlow hhigh
  simp only [scale, Nat.pow_eq]
  split
  · next hpower =>
    obtain ⟨j, hj⟩ : ∃ j : Nat, 52 = k + j := ⟨52 - k, by omega⟩
    have hto : ((52 : Int) - (k : Int)).toNat = j := by omega
    refine ⟨Nat.one_pos, ?_, ?_⟩
    · calc 1 * 2 ^ 52 = 2 ^ k * 2 ^ j := by rw [one_mul, hj, pow_add]
        _ ≤ num * 2 ^ (52 - (k : Int)).toNat := by rw [hto]; exact Nat.mul_le_mul_right _ hlow
    · calc num * 2 ^ (52 - (k : Int)).toNat < 2 ^ (k + 1) * 2 ^ j := by
            rw [hto]; exact Nat.mul_lt_mul_of_pos_right hhigh (by positivity)
        _ = 1 * 2 ^ 53 := by rw [one_mul, ← pow_add]; congr 1; omega
  · next hpower =>
    obtain ⟨j, hj⟩ : ∃ j : Nat, k = j + 52 := ⟨k - 52, by omega⟩
    have hto : (-((52 : Int) - (k : Int))).toNat = j := by omega
    refine ⟨by positivity, ?_, ?_⟩
    · calc 1 * 2 ^ (-(52 - (k : Int))).toNat * 2 ^ 52 = 2 ^ k := by rw [hto, one_mul, hj, pow_add]
        _ ≤ num := hlow
    · calc num < 2 ^ (k + 1) := hhigh
        _ = 1 * 2 ^ (-(52 - (k : Int))).toNat * 2 ^ 53 := by rw [hto, one_mul, ← pow_add]; congr 1; omega

theorem lastPlace_one {num : Nat} (h : num ≠ 0) : lastPlace num 1 = (Nat.log2 num : Int) - 52 := by
  obtain ⟨-, hlow, -⟩ := scale_bounds h
  have hguess : (Nat.log2 num : Int) - (Nat.log2 1 : Int) - mantissaBits = (Nat.log2 num : Int) - 52 := by
    have hlog : Nat.log2 1 = 0 := by decide
    rw [hlog]
    simp [mantissaBits]
  have hneg : -((Nat.log2 num : Int) - 52) = 52 - (Nat.log2 num : Int) := by omega
  unfold lastPlace
  simp only [hguess, hneg]
  rw [if_neg (by simpa [mantissaBits] using hlow)]
  simp only [leastExponent]
  omega

theorem nearestMantissa_bounds {num : Nat} (h : num ≠ 0) :
    2 ^ 52 ≤ nearestMantissa num 1 ∧ nearestMantissa num 1 ≤ 2 ^ 53 := by
  have hneg : -((Nat.log2 num : Int) - 52) = 52 - (Nat.log2 num : Int) := by omega
  obtain ⟨hpos, hlow, hhigh⟩ := scale_bounds h
  simp only [nearestMantissa, lastPlace_one h, hneg]
  generalize scale num 1 (52 - (Nat.log2 num : Int)) = s at *
  have hle : 2 ^ 52 ≤ s.1 / s.2 := (Nat.le_div_iff_mul_le hpos).mpr (by rw [Nat.mul_comm]; exact hlow)
  have hlt : s.1 / s.2 < 2 ^ 53 := (Nat.div_lt_iff_lt_mul hpos).mpr (by rw [Nat.mul_comm]; exact hhigh)
  exact ⟨hle.trans (le_roundHalfEven _ _), (roundHalfEven_le _ _).trans hlt⟩

theorem pack_normal_bits {m : Nat} {e : Int} (hm : 2 ^ 52 ≤ m) :
    pack m e = if 2047 ≤ (e + 1074).toNat + 1 then 2047 * 2 ^ 52 else ((e + 1074).toNat + 1) * 2 ^ 52 + (m - 2 ^ 52) := by
  unfold pack
  rw [if_neg (by simpa [mantissaBits] using hm)]
  simp only [leastExponent, mantissaBits, sub_neg_eq_add, Nat.pow_eq]

theorem readBits_packed {negative : Bool} {m : Nat} {e : Int} (h : (Reading.finite negative m e).IsDouble) :
    readBits ((if negative then 2 ^ 63 else 0) + pack m e) = .finite negative m e := by
  obtain ⟨hm, hlow, hhigh, hnormal⟩ := h
  have hsign : (if negative then 2 ^ 63 else 0) = (if negative then 1 else 0) * 2 ^ 63 := by cases negative <;> rfl
  rw [hsign]
  by_cases hsize : 2 ^ 52 ≤ m
  · obtain ⟨hnegative, hbiased, hfraction⟩ :=
      @parts_of_bits negative ((e + 1074).toNat + 1) (m - 2 ^ 52) (by omega) (by omega)
    have hmantissa : 2 ^ 52 + (m - 2 ^ 52) = m := by omega
    have hexponent : (-1074 : Int) + ((e + 1074).toNat + 1 - 1 : Nat) = e := by omega
    rw [pack_normal_bits hsize, if_neg (show ¬ 2047 ≤ (e + 1074).toNat + 1 by omega), ← Nat.add_assoc,
      readBits_normal (by omega) (by omega), hbiased, hfraction, hmantissa, hexponent, hnegative]
  · obtain rfl : e = -1074 := hnormal.resolve_left hsize
    obtain ⟨hnegative, hbiased, hfraction⟩ := @parts_of_bits negative 0 m (by omega) (by omega)
    rw [Nat.zero_mul, Nat.add_zero] at hnegative hbiased hfraction
    have hpack : pack m (-1074) = m := if_pos (by simp only [mantissaBits, Nat.pow_eq]; omega)
    rw [hpack, readBits_subnormal hbiased, hfraction, hnegative]

theorem value_pack {negative : Bool} {m : Nat} {e : Int} (hm : 2 ^ 52 ≤ m) (hm' : m < 2 ^ 53) (he : -1074 ≤ e) :
    (readBits ((if negative then 2 ^ 63 else 0) + pack m e)).value = 0 ∨
    (readBits ((if negative then 2 ^ 63 else 0) + pack m e)).value = (if negative then -1 else 1) * (m * 2 ^ e) := by
  by_cases hsize : 2047 ≤ (e + 1074).toNat + 1
  · left
    have hsign : (if negative then 2 ^ 63 else 0) = (if negative then 1 else 0) * 2 ^ 63 := by cases negative <;> rfl
    obtain ⟨-, hbiased, hfraction⟩ := @parts_of_bits negative 2047 0 (by decide) (by decide)
    rw [Nat.add_zero] at hbiased hfraction
    rw [hsign, pack_normal_bits hm, if_pos hsize, readBits_infinite hbiased hfraction]
    rfl
  · right
    rw [readBits_packed ⟨hm', he, by omega, .inl hm⟩]
    rfl

theorem pack_lt {m : Nat} (hm : m < 2 ^ 53) (e : Int) : pack m e < 2 ^ 63 := by
  by_cases hsmall : m < 2 ^ 52
  · have hpack : pack m e = m := if_pos hsmall
    omega
  · rw [pack_normal_bits (Nat.le_of_not_lt hsmall)]
    split <;> omega

theorem value_ofBits (bits : UInt64) : value (Float.ofBits bits) = (readBits bits.toNat).value := by
  rw [value, Reading.value_eq, unpacked_read_ofBits, ← Reading.value_eq]

/-- The double of an integer has its sign and as many binary digits, or more. -/
theorem value_ofInt {n : Int} (hn : n ≠ 0) :
    value (ofInt n) = 0 ∨ ∃ (m : Nat) (e : Int), 2 ^ 52 ≤ m ∧ (Nat.log2 n.natAbs : Int) - 52 ≤ e ∧
      value (ofInt n) = (if n < 0 then -1 else 1) * (m * 2 ^ e) := by
  have hnum : n.natAbs ≠ 0 := Int.natAbs_ne_zero.mpr hn
  obtain ⟨hlow, hhigh⟩ := nearestMantissa_bounds hnum
  obtain ⟨m, e, hm, hm', he, he', hmagnitude⟩ : ∃ (m : Nat) (e : Int), 2 ^ 52 ≤ m ∧ m < 2 ^ 53 ∧ -1074 ≤ e ∧
      (Nat.log2 n.natAbs : Int) - 52 ≤ e ∧
      packCarried (nearestMantissa n.natAbs 1) (lastPlace n.natAbs 1) = pack m e := by
    rw [lastPlace_one hnum]
    unfold packCarried
    split
    · exact ⟨2 ^ 52, _, le_refl _, by decide, by omega, by omega, rfl⟩
    · next hcarry => exact ⟨_, _, hlow, by simp only [mantissaBits, Nat.pow_eq] at hcarry; omega, by omega, le_refl _, rfl⟩
  have hvalue : value (ofInt n) = (readBits ((if decide (n < 0) then 2 ^ 63 else 0) + pack m e)).value := by
    have hbits : (if decide (n < 0) = true then 2 ^ 63 else 0) + pack m e < 2 ^ 64 := by
      have := pack_lt hm' e
      split <;> omega
    simp only [ofInt, ofRatio, Nat.pow_eq]
    rw [if_neg hnum, hmagnitude, value_ofBits, UInt64.toNat_ofNat_of_lt' hbits]
  rw [hvalue]
  rcases @value_pack (decide (n < 0)) m e hm hm' he with hzero | hvalue
  · exact .inl hzero
  · exact .inr ⟨m, e, hm, he', by rw [hvalue]; simp⟩

theorem eq_one_of_ofInt {n : Int} (h : value (ofInt n) = 1) : n = 1 := by
  have hn : n ≠ 0 := by
    rintro rfl
    revert h
    decide +kernel
  rcases value_ofInt hn with hzero | ⟨m, e, hm, he, hvalue⟩
  · rw [hzero] at h
    exact absurd h (by norm_num)
  · rw [hvalue] at h
    have hm' : (2 : ℚ) ^ 52 ≤ m := by exact_mod_cast hm
    have hpos : (0 : ℚ) < m * 2 ^ e := mul_pos (lt_of_lt_of_le (by norm_num) hm') (zpow_pos (by norm_num) e)
    have hsign : ¬ n < 0 := by
      intro hneg
      rw [if_pos hneg] at h
      linarith
    rw [if_neg hsign, one_mul] at h
    have hlog : (Nat.log2 n.natAbs : Int) ≤ 0 := by
      have hle : (2 : ℚ) ^ (Nat.log2 n.natAbs : Int) ≤ 2 ^ (0 : Int) :=
        calc (2 : ℚ) ^ (Nat.log2 n.natAbs : Int) = 2 ^ (52 : Int) * 2 ^ ((Nat.log2 n.natAbs : Int) - 52) := by
              rw [← zpow_add₀ (by norm_num)]; congr 1; omega
          _ ≤ m * 2 ^ e :=
            mul_le_mul hm' (zpow_le_zpow_right₀ (by norm_num) he) (zpow_pos (by norm_num) _).le m.cast_nonneg
          _ = 2 ^ (0 : Int) := by rw [h, zpow_zero]
      exact (zpow_le_zpow_iff_right₀ (by norm_num)).mp hle
    have hlt : n.natAbs < 2 ^ (Nat.log2 n.natAbs + 1) := Nat.lt_log2_self
    rw [show Nat.log2 n.natAbs = 0 by omega] at hlt
    omega

end Binary64

end ShelfQuery.Number
