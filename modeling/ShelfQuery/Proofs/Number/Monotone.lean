import ShelfQuery.Number.Text
import ShelfQuery.Proofs.Number.Rounding

set_option autoImplicit false

namespace ShelfQuery.Number

open Float.Model

theorem roundHalfEven_mono {a b : Nat} (den : Nat) (h : a ≤ b) :
    roundHalfEven a den ≤ roundHalfEven b den := by
  have hquotient : a / den ≤ b / den := Nat.div_le_div_right h
  rcases Nat.lt_or_eq_of_le hquotient with hlt | heq
  · calc roundHalfEven a den ≤ a / den + 1 := roundHalfEven_le a den
      _ ≤ b / den := hlt
      _ ≤ roundHalfEven b den := le_roundHalfEven b den
  · -- with one quotient, the remainders decide
    have ha := Nat.div_add_mod a den
    have hb := Nat.div_add_mod b den
    rw [heq] at ha
    have hremainder : a % den ≤ b % den := by omega
    simp only [roundHalfEven, heq]
    split_ifs <;> omega

namespace Binary64

def rounded (n : Nat) : ℚ := nearestMantissa n 1 * 2 ^ ((Nat.log2 n : Int) - 52)

theorem rounded_zero : rounded 0 = 0 := by
  have hmantissa : nearestMantissa 0 1 = 0 := by decide +kernel
  rw [rounded, hmantissa, Nat.cast_zero, zero_mul]

theorem rounded_bounds {n : Nat} (h : n ≠ 0) :
    (2 : ℚ) ^ (Nat.log2 n : Int) ≤ rounded n ∧ rounded n ≤ 2 ^ ((Nat.log2 n : Int) + 1) := by
  obtain ⟨hlow, hhigh⟩ := nearestMantissa_bounds h
  have hlow' : (2 : ℚ) ^ 52 ≤ nearestMantissa n 1 := by exact_mod_cast hlow
  have hhigh' : (nearestMantissa n 1 : ℚ) ≤ 2 ^ 53 := by exact_mod_cast hhigh
  have hpower (k : Nat) : (2 : ℚ) ^ k * 2 ^ ((Nat.log2 n : Int) - 52) = 2 ^ ((k : Int) + ((Nat.log2 n : Int) - 52)) := by
    rw [zpow_add₀ (by norm_num), zpow_natCast]
  constructor
  · calc (2 : ℚ) ^ (Nat.log2 n : Int) = 2 ^ 52 * 2 ^ ((Nat.log2 n : Int) - 52) := by
          rw [hpower]; congr 1; omega
      _ ≤ rounded n := mul_le_mul_of_nonneg_right hlow' (two_zpow_pos _).le
  · calc rounded n ≤ 2 ^ 53 * 2 ^ ((Nat.log2 n : Int) - 52) := mul_le_mul_of_nonneg_right hhigh' (two_zpow_pos _).le
      _ = 2 ^ ((Nat.log2 n : Int) + 1) := by rw [hpower]; congr 1; omega

theorem rounded_nonneg (n : Nat) : 0 ≤ rounded n := mul_nonneg (Nat.cast_nonneg _) (two_zpow_pos _).le

theorem nearestMantissa_mono {a b : Nat} (ha : a ≠ 0) (hlog : Nat.log2 a = Nat.log2 b) (h : a ≤ b) :
    nearestMantissa a 1 ≤ nearestMantissa b 1 := by
  have hb : b ≠ 0 := by omega
  simp only [nearestMantissa, lastPlace_one ha, lastPlace_one hb, hlog, scale]
  split
  · exact roundHalfEven_mono 1 (Nat.mul_le_mul_right _ h)
  · exact roundHalfEven_mono _ h

theorem rounded_mono {a b : Nat} (h : a ≤ b) : rounded a ≤ rounded b := by
  by_cases ha : a = 0
  · rw [ha, rounded_zero]
    exact rounded_nonneg b
  have hb : b ≠ 0 := by omega
  have hlog : Nat.log2 a ≤ Nat.log2 b := (Nat.le_log2 hb).mpr ((Nat.log2_self_le ha).trans h)
  rcases Nat.lt_or_eq_of_le hlog with hlt | heq
  · calc rounded a ≤ 2 ^ ((Nat.log2 a : Int) + 1) := (rounded_bounds ha).2
      _ ≤ 2 ^ (Nat.log2 b : Int) := zpow_le_zpow_right₀ (by norm_num) (by omega)
      _ ≤ rounded b := (rounded_bounds hb).1
  · have hmantissa : (nearestMantissa a 1 : ℚ) ≤ nearestMantissa b 1 := by
      exact_mod_cast nearestMantissa_mono ha heq h
    rw [rounded, rounded, heq]
    exact mul_le_mul_of_nonneg_right hmantissa (two_zpow_pos _).le

theorem roundHalfEven_one (n : Nat) : roundHalfEven n 1 = n := by
  simp [roundHalfEven, Nat.mod_one]

theorem rounded_of_le {n : Nat} (h : n ≤ 2 ^ 53) : rounded n = n := by
  by_cases hn : n = 0
  · rw [hn, rounded_zero, Nat.cast_zero]
  by_cases hlast : n = 2 ^ 53
  · have hmantissa : nearestMantissa (2 ^ 53) 1 = 2 ^ 52 := by decide +kernel
    have hlog : Nat.log2 (2 ^ 53) = 53 := Nat.log2_two_pow
    rw [hlast, rounded, hmantissa, hlog]
    norm_num
  have hlog : Nat.log2 n < 53 := (Nat.log2_lt hn).mpr (by omega)
  have hneg : -((Nat.log2 n : Int) - 52) = ((52 - Nat.log2 n : Nat) : Int) := by omega
  have hmantissa : nearestMantissa n 1 = n * 2 ^ (52 - Nat.log2 n) := by
    simp only [nearestMantissa, lastPlace_one hn, hneg, scale, Nat.pow_eq, Int.toNat_natCast]
    rw [if_pos (Int.natCast_nonneg _), roundHalfEven_one]
  rw [rounded, hmantissa, ← neg_neg ((Nat.log2 n : Int) - 52), hneg, zpow_neg, zpow_natCast]
  push_cast
  rw [mul_assoc, mul_inv_cancel₀ (by positivity), mul_one]

theorem isFinite_of_unpacked {x : Float} {negative : Bool} {m : Nat} {e : Int}
    (h : (read x).unpacked = (Reading.finite negative m e).unpacked) : isFinite x = true := by
  cases hx : read x with
  | finite => simp only [isFinite, hx]
  | infinite | notANumber =>
    rw [hx] at h
    cases m <;> cases h

/-- An integer of 64 binary digits is rounded to a finite double, of its sign and of the rounded magnitude. -/
theorem unpacked_read_ofInt {n : Int} (hn : n ≠ 0) (hsize : n.natAbs < 2 ^ 64) :
    ∃ (m : Nat) (e : Int), (read (ofInt n)).unpacked = (Reading.finite (decide (n < 0)) m e).unpacked ∧
      (m : ℚ) * 2 ^ e = rounded n.natAbs := by
  have hnum : n.natAbs ≠ 0 := Int.natAbs_ne_zero.mpr hn
  have hlog : Nat.log2 n.natAbs < 64 := (Nat.log2_lt hnum).mpr hsize
  obtain ⟨hlow, hhigh⟩ := nearestMantissa_bounds hnum
  obtain ⟨m, e, hdouble, hpack, hmagnitude⟩ : ∃ (m : Nat) (e : Int),
      (Reading.finite (decide (n < 0)) m e).IsDouble ∧
      packCarried (nearestMantissa n.natAbs 1) (lastPlace n.natAbs 1) = pack m e ∧
      (m : ℚ) * 2 ^ e = rounded n.natAbs := by
    rw [lastPlace_one hnum, rounded]
    unfold packCarried
    split
    · next hcarry =>
      refine ⟨2 ^ 52, _, ⟨by decide, by omega, by omega, .inl (le_refl _)⟩, rfl, ?_⟩
      rw [hcarry, zpow_add₀ (by norm_num)]
      simp only [mantissaBits, Nat.pow_eq]
      push_cast
      ring
    · next hcarry =>
      have hlt : nearestMantissa n.natAbs 1 < 2 ^ 53 := by
        simp only [mantissaBits, Nat.pow_eq] at hcarry
        omega
      exact ⟨_, _, ⟨hlt, by omega, by omega, .inl hlow⟩, rfl, rfl⟩
  refine ⟨m, e, ?_, hmagnitude⟩
  have hbits : (if decide (n < 0) = true then 2 ^ 63 else 0) + pack m e < 2 ^ 64 := by
    have := pack_lt hdouble.1 e
    split <;> omega
  simp only [ofInt, ofRatio, Nat.pow_eq]
  rw [if_neg hnum, hpack, unpacked_read_ofBits, UInt64.toNat_ofNat_of_lt' hbits, readBits_packed hdouble]

theorem isFinite_ofInt {n : Int} (hsize : n.natAbs < 2 ^ 64) : isFinite (ofInt n) = true := by
  by_cases hn : n = 0
  · rw [hn]
    decide +kernel
  · obtain ⟨m, e, hread, -⟩ := unpacked_read_ofInt hn hsize
    exact isFinite_of_unpacked hread

theorem value_ofInt_eq {n : Int} (hsize : n.natAbs < 2 ^ 64) :
    value (ofInt n) = if n < 0 then -rounded n.natAbs else rounded n.natAbs := by
  by_cases hn : n = 0
  · rw [hn, if_neg (by decide), Int.natAbs_zero, rounded_zero]
    decide +kernel
  · obtain ⟨m, e, hread, hmagnitude⟩ := unpacked_read_ofInt hn hsize
    rw [value, Reading.value_eq, hread, ← Reading.value_eq, Reading.value, hmagnitude]
    split
    · next hneg => rw [if_pos (of_decide_eq_true hneg), neg_one_mul]
    · next hneg => rw [if_neg (fun h => hneg (decide_eq_true h)), one_mul]

theorem value_ofInt_mono {x y : Int} (hx : x.natAbs < 2 ^ 64) (hy : y.natAbs < 2 ^ 64) (h : x ≤ y) :
    value (ofInt x) ≤ value (ofInt y) := by
  rw [value_ofInt_eq hx, value_ofInt_eq hy]
  split
  · split
    · exact neg_le_neg (rounded_mono (by omega))
    · exact (neg_nonpos.mpr (rounded_nonneg _)).trans (rounded_nonneg _)
  · rw [if_neg (by omega)]
    exact rounded_mono (by omega)

theorem value_ofInt_of_small {n : Int} (h : n.natAbs ≤ 2 ^ 53) : value (ofInt n) = n := by
  rw [value_ofInt_eq (by omega), rounded_of_le h, ← Int.cast_natCast]
  split
  · next hneg =>
    have habs : (n.natAbs : Int) = -n := by omega
    rw [habs, Int.cast_neg, neg_neg]
  · next hneg =>
    have habs : (n.natAbs : Int) = n := by omega
    rw [habs]

theorem compare_then_swap (d e : Int) (m n : Nat) :
    (compare e d).then (compare n m) = ((compare d e).then (compare m n)).swap := by
  rw [Ordering.swap_then, ← Std.OrientedCmp.eq_swap, ← Std.OrientedCmp.eq_swap]

theorem lt_iff_compare (x y : Float) : x < y ↔ x.toModel.unpack.compare y.toModel.unpack = some .lt := by
  simp [LT.lt, Float.lt, Float.Model.lt, Float.Model.UnpackedFloat.lt]

theorem compare_swap (x y : UnpackedFloat) : y.compare x = (x.compare y).map Ordering.swap := by
  cases x with
  | notANumber => cases y <;> rfl
  | infinity s =>
    cases y with
    | notANumber => cases s <;> rfl
    | infinity s' => cases s <;> cases s' <;> rfl
    | zero | finite => cases s <;> rfl
  | zero s =>
    cases y with
    | notANumber | zero => rfl
    | infinity s' | finite s' => cases s' <;> rfl
  | finite s m d =>
    cases y with
    | notANumber => cases s <;> rfl
    | infinity s' => cases s <;> cases s' <;> rfl
    | zero => cases s <;> rfl
    | finite s' n e =>
      cases s <;> cases s'
      · exact congrArg some (congrArg Ordering.swap (compare_then_swap d e m n))
      · rfl
      · rfl
      · exact congrArg some (compare_then_swap d e m n)

/-- The nearest number with at most 53 binary digits before its zeros, the even one of two. -/
def nearestNat (n : Nat) : Nat := roundHalfEven n (2 ^ (Nat.log2 n - 52)) * 2 ^ (Nat.log2 n - 52)

theorem nearestNat_eq_iff (n : Nat) : nearestNat n = n ↔ 2 ^ (Nat.log2 n - 52) ∣ n := by
  have hpos : 0 < 2 ^ (Nat.log2 n - 52) := by positivity
  constructor
  · intro h
    exact ⟨_, (h.symm.trans (Nat.mul_comm _ _))⟩
  · intro h
    have hround : roundHalfEven n (2 ^ (Nat.log2 n - 52)) = n / 2 ^ (Nat.log2 n - 52) := by
      simp [roundHalfEven, Nat.mod_eq_zero_of_dvd h]
    rw [nearestNat, hround, Nat.div_mul_cancel h]

theorem nearestNat_of_le {n : Nat} (h : n ≤ 2 ^ 53) : nearestNat n = n := by
  rw [nearestNat_eq_iff]
  rcases Nat.lt_or_eq_of_le h with hlt | rfl
  · have hlog : Nat.log2 n - 52 = 0 := by
      by_cases hn : n = 0
      · subst hn
        decide
      · have := (Nat.log2_lt hn).mpr hlt
        omega
    simp [hlog]
  · decide +kernel

theorem rounded_eq_nearestNat (n : Nat) : rounded n = nearestNat n := by
  rcases le_or_gt n (2 ^ 53) with hle | hlt
  · rw [rounded_of_le hle, nearestNat_of_le hle]
  · have hn : n ≠ 0 := by omega
    obtain ⟨k, hk⟩ : ∃ k : Nat, Nat.log2 n = k + 53 := by
      have hlog : 53 ≤ Nat.log2 n := (Nat.le_log2 hn).mpr hlt.le
      exact ⟨Nat.log2 n - 53, by omega⟩
    have hscale : scale n 1 (-lastPlace n 1) = (n, 2 ^ (k + 1)) := by
      have hto : (-(-(((k + 53 : Nat) : Int) - 52))).toNat = k + 1 := by omega
      rw [lastPlace_one hn, hk, scale, if_neg (by omega), hto, Nat.pow_eq, Nat.one_mul]
    have hpower : ((k + 53 : Nat) : Int) - 52 = ((k + 1 : Nat) : Int) := by omega
    rw [rounded, nearestMantissa, hscale, nearestNat, hk, hpower, zpow_natCast]
    push_cast
    rfl

theorem nearestNat_ne_zero {n : Nat} (h : n ≠ 0) : nearestNat n ≠ 0 := by
  have hpos : (0 : ℚ) < rounded n := (two_zpow_pos _).trans_le (rounded_bounds h).1
  rw [rounded_eq_nearestNat] at hpos
  exact Nat.pos_iff_ne_zero.mp (by exact_mod_cast hpos)

theorem lt_iff {x y : Float} (hx : isFinite x = true) (hy : isFinite y = true) : x < y ↔ value x < value y := by
  rw [lt_iff_compare, compare_eq hx hy, Option.some.injEq, compare_lt_iff_lt]

theorem ofInt_lt_zero {n : Int} (hsize : n.natAbs < 2 ^ 64) : ofInt n < 0 ↔ n < 0 := by
  have hzero : isFinite 0 = true ∧ value 0 = 0 := by decide +kernel
  rw [lt_iff (isFinite_ofInt hsize) hzero.1, hzero.2, value_ofInt_eq hsize]
  split
  · next hneg =>
    have hpos := (rounded_bounds (n := n.natAbs) (by omega)).1
    simpa [hneg] using (two_zpow_pos _).trans_le hpos
  · next hneg => simpa [hneg] using rounded_nonneg n.natAbs

end Binary64

theorem fixed_whole {x : Float} (hfinite : Binary64.isFinite x = true) {k : Nat} (h : |Binary64.value x| = k) :
    fixed 0 x = toString k := by
  unfold fixed
  cases hread : Binary64.read x with
  | infinite | notANumber => simp [Binary64.isFinite, hread] at hfinite
  | finite negative m e =>
    have hvalue : (m : ℚ) * 2 ^ e = k := by
      have hnonneg : (0 : ℚ) ≤ m * 2 ^ e := mul_nonneg m.cast_nonneg (two_zpow_pos e).le
      rw [← h, Binary64.value, hread, Reading.value]
      cases negative <;> simp [abs_of_nonneg hnonneg]
    have hquotient := Binary64.scale_div m 1 e
    rw [Nat.cast_one, div_one, hvalue] at hquotient
    have hround : roundHalfEven (Binary64.scale m 1 e).1 (Binary64.scale m 1 e).2 = k :=
      roundHalfEven_eq (Binary64.scale_den_pos Nat.one_pos e) (by rw [hquotient]; linarith) (by rw [hquotient]; linarith)
        (fun _ => by rw [hquotient]; constructor <;> linarith)
    have hone : m * Nat.pow 10 0 = m := Nat.mul_one m
    change toString (roundHalfEven (Binary64.scale (m * Nat.pow 10 0) 1 e).1 (Binary64.scale (m * Nat.pow 10 0) 1 e).2) = _
    rw [hone, hround]

end ShelfQuery.Number
