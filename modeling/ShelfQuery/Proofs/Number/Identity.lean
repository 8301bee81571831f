import ShelfQuery.Proofs.Number.Monotone

set_option autoImplicit false

namespace ShelfQuery.Number

theorem Reading.eq_of_value {r s : Reading} (hr : r.IsDouble) (hs : s.IsDouble) (hvalue : r.value = s.value)
    (hne : r.value ≠ 0) : r = s := by
  cases r with
  | infinite | notANumber => exact absurd rfl hne
  | finite negative m d =>
    cases s with
    | infinite | notANumber => exact absurd hvalue hne
    | finite negative' n e =>
      obtain ⟨hm, hd, -, hm'⟩ := hr
      obtain ⟨hn, he, -, hn'⟩ := hs
      have hnonneg : (0 : ℚ) ≤ m * 2 ^ d := mul_nonneg (Nat.cast_nonneg m) (two_zpow_pos d).le
      have hnonneg' : (0 : ℚ) ≤ n * 2 ^ e := mul_nonneg (Nat.cast_nonneg n) (two_zpow_pos e).le
      -- of two signs, one makes the value at least zero and the other at most
      have hsame : negative = negative' := by
        by_contra hsign
        cases Bool.eq_not_of_ne hsign
        have hzero : (m : ℚ) * 2 ^ d = 0 := by
          cases negative' <;> simp [Reading.value] at hvalue <;> linarith
        rw [Reading.value, hzero, mul_zero] at hne
        exact hne rfl
      subst hsame
      have hmagnitude : (m : ℚ) * 2 ^ d = n * 2 ^ e := by
        cases negative <;> simpa [Reading.value] using hvalue
      have hcompare := compare_magnitudes hm hn hd he hm' hn'
      rw [compare_eq_iff_eq.mpr hmagnitude, Ordering.then_eq_eq, compare_eq_iff_eq, compare_eq_iff_eq] at hcompare
      rw [hcompare.1, hcompare.2]

namespace Binary64

theorem bits_of_readBits {bits : Nat} (hbits : bits < 2 ^ 64) {negative : Bool} {m : Nat} {e : Int}
    (h : readBits bits = .finite negative m e) :
    bits = (if negative then 2 ^ 63 else 0) + if m < 2 ^ 52 then m else (e + 1075).toNat * 2 ^ 52 + (m - 2 ^ 52) := by
  have hflag : decide (bits / 2 ^ 63 = 1) = negative := by
    unfold readBits at h
    dsimp only at h
    split at h
    · split at h <;> cases h
    · split at h <;> exact (Reading.finite.inj h).1
  have hhigh : (if negative then 2 ^ 63 else 0) = bits / 2 ^ 63 * 2 ^ 63 := by
    rw [← hflag]
    by_cases hone : bits / 2 ^ 63 = 1
    · rw [hone]
      rfl
    · have hzero : bits / 2 ^ 63 = 0 := by omega
      rw [hzero]
      rfl
  rw [hhigh]
  by_cases hlast : bits / 2 ^ 52 % 2 ^ 11 = 2047
  · by_cases hfraction : bits % 2 ^ 52 = 0
    · cases (readBits_infinite hlast hfraction).symm.trans h
    · cases (readBits_notANumber hlast hfraction).symm.trans h
  · by_cases hfirst : bits / 2 ^ 52 % 2 ^ 11 = 0
    · cases (readBits_subnormal hfirst).symm.trans h
      rw [if_pos (Nat.mod_lt _ (by decide))]
      omega
    · cases (readBits_normal hlast hfirst).symm.trans h
      rw [if_neg (by omega)]
      omega

theorem eq_of_read {x y : Float} (hx : isFinite x = true) (h : read x = read y) : x = y := by
  have hbits : x.toBits.toNat = y.toBits.toNat := by
    cases hread : read x with
    | infinite | notANumber => simp [isFinite, hread] at hx
    | finite negative m e =>
      rw [bits_of_readBits x.toBits.toNat_lt hread, bits_of_readBits y.toBits.toNat_lt (h.symm.trans hread)]
  rcases x with ⟨⟨a, ha⟩⟩
  rcases y with ⟨⟨b, hb⟩⟩
  cases UInt64.toNat_inj.mp hbits
  rfl

theorem isFinite_of_value {x : Float} (h : value x ≠ 0) : isFinite x = true := by
  unfold value at h
  unfold isFinite
  cases hx : read x with
  | finite => rfl
  | infinite | notANumber => exact absurd (by rw [hx]; rfl) h

theorem eq_of_value {x y : Float} (h : value x = value y) (hne : value x ≠ 0) : x = y :=
  eq_of_read (isFinite_of_value hne) (Reading.eq_of_value (read_isDouble x) (read_isDouble y) h hne)

/-- An integer without its sign is rounded to the same double, whether it comes as digits or as an integer. -/
theorem ofDecimal_natural {n : Nat} (h : n < 2 ^ 64) : ofDecimal false n 0 = ofInt n := by
  have hlength : (toString n).length ≤ 20 := by
    have hdigits : (Nat.toDigits 10 n).length ≤ 20 := (Nat.length_toDigits_le_iff (by decide) (by decide)).mpr (by omega)
    rwa [Nat.toString_eq_ofList_toDigits, String.length_ofList]
  by_cases hzero : n = 0
  · rw [hzero]
    rfl
  · -- no more than twenty digits: neither shortcut for exponents out of range is taken
    have hsize : ¬ ((toString n).length : Int) + 0 < -330 := by omega
    have hsize' : ¬ 330 < ((toString n).length : Int) + 0 := by omega
    have hsign : decide ((n : Int) < 0) = false := by simp
    simp only [ofDecimal, ofInt, hzero, hsize, hsize', hsign]
    simp

theorem ofInt_least : -ofInt (2 ^ 63) = ofInt (-(2 ^ 63)) := by
  have hpositive : value (ofInt (2 ^ 63)) = 2 ^ 63 := by decide +kernel
  have hnegative : value (ofInt (-(2 ^ 63))) = -(2 ^ 63) := by decide +kernel
  apply eq_of_value
  · rw [value_neg, hpositive, hnegative]
  · rw [value_neg, hpositive]
    norm_num

end Binary64

end ShelfQuery.Number
