import Mathlib.Algebra.Order.Field.Basic
import Mathlib.Algebra.Order.Field.Rat
import Mathlib.Tactic.Linarith
import Mathlib.Tactic.Positivity
import Mathlib.Tactic.Ring
import ShelfQuery.Number.Binary64

set_option autoImplicit false

/-!
# The numbers that doubles are

`Binary64.value` is the rational number of a finite double. Negation, order and equality of doubles are those of their
numbers.
-/

namespace ShelfQuery.Number

open Float.Model Float.Model.UnpackedFloat

variable {m : Nat} {r : Reading} {x y : Float}

section

variable (b : BitVec 64)

theorem toNat_unpackMantissa : (@unpackMantissa Format.binary64 b).toNat = b.toNat % 2 ^ 52 := by
  simp [unpackMantissa, BitVec.extractLsb_toNat]

theorem toNat_unpackExponent : (@unpackExponent Format.binary64 b).toNat = b.toNat / 2 ^ 52 % 2 ^ 11 := by
  simp [unpackExponent, BitVec.extractLsb_toNat, Nat.shiftRight_eq_div_pow]

theorem toNat_unpackSign : (@unpackSign Format.binary64 b).toNat = b.toNat / 2 ^ 63 := by
  have hb : b.toNat < 2 ^ 64 := b.isLt
  delta unpackSign
  simp only [BitVec.toNat_cast, BitVec.extractLsb_toNat, Nat.shiftRight_eq_div_pow]
  norm_num
  omega

end

namespace Reading

def sign (negative : Bool) : Sign := if negative then .negative else .positive

def unpacked : Reading → UnpackedFloat
  | .finite negative 0 _ => .zero (sign negative)
  | .finite negative (m + 1) exponent => .finite (sign negative) (m + 1) exponent m.succ_pos
  | .infinite negative => .infinity (sign negative)
  | .notANumber => .notANumber

def value : Reading → ℚ
  | .finite negative mantissa exponent => (if negative then -1 else 1) * (mantissa * 2 ^ exponent)
  | _ => 0

end Reading

namespace Binary64

def readBits (bits : Nat) : Reading :=
  let negative := bits / 2 ^ 63 = 1
  let biased := bits / 2 ^ mantissaBits % 2 ^ 11
  let fraction := bits % 2 ^ mantissaBits
  if biased = 2047 then
    if fraction = 0 then .infinite negative else .notANumber
  else if biased = 0 then .finite negative fraction leastExponent
  else .finite negative (2 ^ mantissaBits + fraction) (leastExponent + (biased - 1 : Nat))

section

variable {bits : Nat}

theorem readBits_infinite (h : bits / 2 ^ 52 % 2 ^ 11 = 2047) (h' : bits % 2 ^ 52 = 0) :
    readBits bits = .infinite (bits / 2 ^ 63 = 1) := (if_pos h).trans (if_pos h')

theorem readBits_notANumber (h : bits / 2 ^ 52 % 2 ^ 11 = 2047) (h' : bits % 2 ^ 52 ≠ 0) :
    readBits bits = .notANumber := (if_pos h).trans (if_neg h')

theorem readBits_subnormal (h : bits / 2 ^ 52 % 2 ^ 11 = 0) :
    readBits bits = .finite (bits / 2 ^ 63 = 1) (bits % 2 ^ 52) (-1074) := by
  have h' : bits / 2 ^ 52 % 2 ^ 11 ≠ 2047 := by omega
  exact (if_neg h').trans (if_pos h)

theorem readBits_normal (h : bits / 2 ^ 52 % 2 ^ 11 ≠ 2047) (h' : bits / 2 ^ 52 % 2 ^ 11 ≠ 0) :
    readBits bits = .finite (bits / 2 ^ 63 = 1) (2 ^ 52 + bits % 2 ^ 52) (-1074 + (bits / 2 ^ 52 % 2 ^ 11 - 1 : Nat)) :=
  (if_neg h).trans (if_neg h')

end

theorem unpacked_finite (negative : Bool) {mantissa : Nat} (exponent : Int) (h : 0 < mantissa) :
    (Reading.finite negative mantissa exponent).unpacked = .finite (Reading.sign negative) mantissa exponent h := by
  cases mantissa with
  | zero => exact nomatch h
  | succ m => rfl

theorem finite_congr {s : Sign} {m m' : Nat} {e e' : Int} {h : 0 < m} {h' : 0 < m'} (hm : m = m') (he : e = e') :
    UnpackedFloat.finite s m e h = .finite s m' e' h' := by
  subst hm he
  rfl

theorem unpack_eq (b : BitVec 64) : UnpackedFloat.unpack Format.binary64 b = (readBits b.toNat).unpacked := by
  have hm := toNat_unpackMantissa b
  have he := toNat_unpackExponent b
  have hs := toNat_unpackSign b
  have hb : b.toNat < 2 ^ 64 := b.isLt
  have hsign : Sign.ofBitVec (@unpackSign Format.binary64 b) = Reading.sign (decide (b.toNat / 2 ^ 63 = 1)) := by
    have hbit : b.toNat / 2 ^ 63 = 0 ∨ b.toNat / 2 ^ 63 = 1 := by omega
    rcases hbit with hbit | hbit
    · have hzero : @unpackSign Format.binary64 b = 0#1 := BitVec.eq_of_toNat_eq (hs.trans hbit)
      rw [hzero, hbit]
      rfl
    · have hone : @unpackSign Format.binary64 b = 1#1 := BitVec.eq_of_toNat_eq (hs.trans hbit)
      rw [hone, hbit]
      rfl
  have hones : @unpackExponent Format.binary64 b = -1#11 ↔ b.toNat / 2 ^ 52 % 2 ^ 11 = 2047 := by
    rw [← he]
    exact ⟨fun h => by rw [h]; rfl, fun h => BitVec.eq_of_toNat_eq h⟩
  have hzero : @unpackExponent Format.binary64 b = 0#11 ↔ b.toNat / 2 ^ 52 % 2 ^ 11 = 0 := by
    rw [← he]
    exact ⟨fun h => by rw [h]; rfl, fun h => BitVec.eq_of_toNat_eq h⟩
  have hfraction : @unpackMantissa Format.binary64 b = 0#52 ↔ b.toNat % 2 ^ 52 = 0 := by
    rw [← hm]
    exact ⟨fun h => by rw [h]; rfl, fun h => BitVec.eq_of_toNat_eq h⟩
  unfold UnpackedFloat.unpack
  dsimp only
  rw [hsign]
  by_cases h1 : @unpackExponent Format.binary64 b = -1#11
  · rw [if_pos h1]
    by_cases h2 : @unpackMantissa Format.binary64 b = 0#52
    · rw [if_pos h2, readBits_infinite (hones.mp h1) (hfraction.mp h2)]
      rfl
    · rw [if_neg h2, readBits_notANumber (hones.mp h1) (fun h => h2 (hfraction.mpr h))]
      rfl
  · rw [if_neg h1]
    by_cases h2 : @unpackExponent Format.binary64 b = 0#11
    · rw [if_pos h2, readBits_subnormal (hzero.mp h2)]
      by_cases h3 : @unpackMantissa Format.binary64 b = 0#52
      · rw [dif_pos h3, hfraction.mp h3]
        rfl
      · rw [dif_neg h3, unpacked_finite _ _ (Nat.pos_of_ne_zero fun h => h3 (hfraction.mpr h))]
        refine finite_congr hm ?_
        rw [he, hzero.mp h2]
        rfl
    · have hnormal : b.toNat / 2 ^ 52 % 2 ^ 11 ≠ 0 := fun h => h2 (hzero.mpr h)
      rw [if_neg h2, readBits_normal (fun h => h1 (hones.mpr h)) hnormal, unpacked_finite _ _ (by omega)]
      refine finite_congr ?_ ?_
      · rw [BitVec.toNat_append, hm, ← Nat.shiftLeft_add_eq_or_of_lt (Nat.mod_lt _ (by decide))]
        rfl
      · rw [he]
        have hbias : (Format.exponentBias Format.binary64 : Int) = 1023 := rfl
        rw [hbias]
        push_cast
        omega

theorem toNat_packComponents (s : Sign) (e : BitVec 11) (m : BitVec 52) :
    (packComponents Format.binary64 s e m).toNat = s.toBitVec.toNat * 2 ^ 63 + e.toNat * 2 ^ 52 + m.toNat := by
  have happend : (s.toBitVec ++ e).toNat = s.toBitVec.toNat * 2 ^ 11 + e.toNat := by
    rw [BitVec.toNat_append, ← Nat.shiftLeft_add_eq_or_of_lt e.isLt, Nat.shiftLeft_eq]
  have hall : (packComponents Format.binary64 s e m).toNat = (s.toBitVec ++ e).toNat * 2 ^ 52 + m.toNat := by
    rw [packComponents, BitVec.toNat_append, ← Nat.shiftLeft_add_eq_or_of_lt m.isLt, Nat.shiftLeft_eq]
  rw [hall, happend]
  ring

end Binary64

def Reading.IsDouble : Reading → Prop
  | .finite _ mantissa exponent =>
    mantissa < 2 ^ 53 ∧ -1074 ≤ exponent ∧ exponent ≤ 971 ∧ (2 ^ 52 ≤ mantissa ∨ exponent = -1074)
  | _ => True

namespace Binary64

theorem readBits_isDouble {bits : Nat} : (readBits bits).IsDouble := by
  have hfraction : bits % 2 ^ 52 < 2 ^ 52 := Nat.mod_lt _ (by decide)
  have hbiased : bits / 2 ^ 52 % 2 ^ 11 < 2 ^ 11 := Nat.mod_lt _ (by decide)
  by_cases h1 : bits / 2 ^ 52 % 2 ^ 11 = 2047
  · by_cases h2 : bits % 2 ^ 52 = 0
    · rw [readBits_infinite h1 h2]
      trivial
    · rw [readBits_notANumber h1 h2]
      trivial
  · by_cases h2 : bits / 2 ^ 52 % 2 ^ 11 = 0
    · rw [readBits_subnormal h2]
      exact ⟨by omega, by omega, by omega, .inr rfl⟩
    · rw [readBits_normal h1 h2]
      exact ⟨by omega, by omega, by omega, .inl (by omega)⟩

theorem toNat_sign (negative : Bool) : (Reading.sign negative).toBitVec.toNat = if negative then 1 else 0 := by
  cases negative <;> rfl

theorem pack_normal (s : Sign) {e : Int} (hpos : 0 < m) (hm : m < 2 ^ 53) (hnormal : 2 ^ 52 ≤ m)
    (hlow : -1074 ≤ e) (hhigh : e ≤ 971) :
    (UnpackedFloat.pack Format.binary64 (.finite s m e hpos)).toNat =
      s.toBitVec.toNat * 2 ^ 63 + (e + 1075).toNat * 2 ^ 52 + (m - 2 ^ 52) := by
  have hlog : m.log2 = 52 := by
    rw [Nat.log2_eq_iff (by omega)]
    exact ⟨hnormal, hm⟩
  have hbiased : (e + (Format.exponentBias Format.binary64 : Int) + (52 : Nat)).toNat = (e + 1075).toNat := by
    have hbias : (Format.exponentBias Format.binary64 : Int) = 1023 := rfl
    rw [hbias]
    congr 1
    omega
  unfold UnpackedFloat.pack
  simp only [hlog, hbiased]
  rw [if_neg (by omega), if_pos (show 52 + 1 = Format.mantissaBits Format.binary64 from rfl), toNat_packComponents,
    BitVec.toNat_ofNat, BitVec.toNat_ofNat]
  omega

theorem pack_subnormal (s : Sign) (hpos : 0 < m) (hm : m < 2 ^ 52) :
    (UnpackedFloat.pack Format.binary64 (.finite s m (-1074) hpos)).toNat = s.toBitVec.toNat * 2 ^ 63 + m := by
  have hlog : m.log2 < 52 := (Nat.log2_lt (by omega)).mpr hm
  have hbits : Format.mantissaBits Format.binary64 = 53 := rfl
  have hbiased : ((-1074 : Int) + (Format.exponentBias Format.binary64 : Int) + (52 : Nat)).toNat = 1 := rfl
  unfold UnpackedFloat.pack
  simp only [hbiased, hbits]
  rw [if_neg (by decide), if_neg (by omega), toNat_packComponents, BitVec.toNat_ofNat, BitVec.toNat_ofNat]
  omega

theorem parts_of_bits {negative : Bool} {biased fraction : Nat} (hbiased : biased < 2048) (hfraction : fraction < 2 ^ 52) :
    let bits := (if negative then 1 else 0) * 2 ^ 63 + biased * 2 ^ 52 + fraction
    decide (bits / 2 ^ 63 = 1) = negative ∧ bits / 2 ^ 52 % 2 ^ 11 = biased ∧ bits % 2 ^ 52 = fraction := by
  cases negative
  · refine ⟨?_, ?_, ?_⟩
    · simp only [Bool.false_eq_true, if_false, decide_eq_false_iff_not]
      omega
    · simp only [Bool.false_eq_true, if_false]
      omega
    · simp only [Bool.false_eq_true, if_false]
      omega
  · refine ⟨?_, ?_, ?_⟩
    · simp only [if_true, decide_eq_true_eq]
      omega
    · simp only [if_true]
      omega
    · simp only [if_true]
      omega

theorem readBits_pack {negative : Bool} {mantissa : Nat} {exponent : Int}
    (h : (Reading.finite negative mantissa exponent).IsDouble) (hpos : 0 < mantissa) :
    readBits (UnpackedFloat.pack Format.binary64 (Reading.finite negative mantissa exponent).unpacked).toNat =
      .finite negative mantissa exponent := by
  obtain ⟨hm, hlow, hhigh, hnormal⟩ := h
  rw [unpacked_finite _ _ hpos]
  by_cases hsize : 2 ^ 52 ≤ mantissa
  · have hmantissa : 2 ^ 52 + (mantissa - 2 ^ 52) = mantissa := by omega
    have hexponent : (-1074 : Int) + ((exponent + 1075).toNat - 1 : Nat) = exponent := by omega
    obtain ⟨hnegative, hbiased, hfraction⟩ :=
      @parts_of_bits negative (exponent + 1075).toNat (mantissa - 2 ^ 52) (by omega) (by omega)
    rw [pack_normal _ hpos hm hsize hlow hhigh, toNat_sign, readBits_normal (by omega) (by omega), hbiased, hfraction,
      hmantissa, hexponent, hnegative]
  · obtain rfl : exponent = -1074 := hnormal.resolve_left hsize
    obtain ⟨hnegative, hbiased, hfraction⟩ := @parts_of_bits negative 0 mantissa (by omega) (by omega)
    rw [Nat.zero_mul, Nat.add_zero] at hnegative hbiased hfraction
    rw [pack_subnormal _ hpos (by omega), toNat_sign, readBits_subnormal hbiased, hfraction, hnegative]

theorem unpacked_pack_special (h : ∀ negative mantissa exponent, r = .finite negative mantissa exponent →
    mantissa = 0) :
    (readBits (UnpackedFloat.pack Format.binary64 r.unpacked).toNat).unpacked = r.unpacked := by
  have hzero (s : Bool) : (readBits (UnpackedFloat.pack Format.binary64 (.zero (Reading.sign s))).toNat).unpacked =
      .zero (Reading.sign s) := by
    cases s <;> rfl
  have hinfinite (s : Bool) :
      (readBits (UnpackedFloat.pack Format.binary64 (.infinity (Reading.sign s))).toNat).unpacked =
        .infinity (Reading.sign s) := by
    cases s <;> rfl
  cases r with
  | finite negative mantissa exponent =>
    obtain rfl := h _ _ _ rfl
    exact hzero negative
  | infinite negative => exact hinfinite negative
  | notANumber => rfl

theorem unpacked_pack (h : r.IsDouble) :
    (readBits (UnpackedFloat.pack Format.binary64 r.unpacked).toNat).unpacked = r.unpacked := by
  cases r with
  | finite negative mantissa exponent =>
    cases mantissa with
    | zero => exact unpacked_pack_special fun _ _ _ heq => by cases heq; rfl
    | succ m => rw [readBits_pack h m.succ_pos]
  | infinite | notANumber => exact unpacked_pack_special nofun

theorem read_isDouble (x : Float) : (read x).IsDouble := readBits_isDouble

theorem toModel_unpack (x : Float) : x.toModel.unpack = (read x).unpacked := unpack_eq _

theorem unpacked_read_pack (h : r.IsDouble) :
    (read (.ofModel (Float.Model.pack r.unpacked))).unpacked = r.unpacked := unpacked_pack h

theorem unpacked_read_ofBits (bits : UInt64) :
    (read (Float.ofBits bits)).unpacked = (readBits bits.toNat).unpacked := by
  have hunpack : UnpackedFloat.unpack Format.binary64 bits.toBitVec = (readBits bits.toNat).unpacked := unpack_eq _
  unfold Float.ofBits Float.Model.ofBits
  rw [hunpack]
  exact unpacked_read_pack readBits_isDouble

end Binary64

namespace Reading

def unpackedValue : UnpackedFloat → ℚ
  | .finite .negative mantissa exponent _ => -(mantissa * 2 ^ exponent)
  | .finite .positive mantissa exponent _ => mantissa * 2 ^ exponent
  | _ => 0

theorem value_eq (r : Reading) : r.value = unpackedValue r.unpacked := by
  cases r with
  | finite negative mantissa exponent =>
    cases mantissa with
    | zero =>
      change _ * (((0 : Nat) : ℚ) * 2 ^ exponent) = 0
      rw [Nat.cast_zero, zero_mul, mul_zero]
    | succ m =>
      cases negative with
      | false => exact one_mul _
      | true => exact neg_one_mul _
  | infinite | notANumber => rfl

def neg : Reading → Reading
  | .finite negative mantissa exponent => .finite (!negative) mantissa exponent
  | .infinite negative => .infinite (!negative)
  | .notANumber => .notANumber

theorem unpacked_neg (r : Reading) : r.unpacked.neg = r.neg.unpacked := by
  cases r with
  | finite negative mantissa exponent => cases mantissa <;> cases negative <;> rfl
  | infinite negative => cases negative <;> rfl
  | notANumber => rfl

theorem value_neg (r : Reading) : r.neg.value = -r.value := by
  cases r with
  | finite negative mantissa exponent => cases negative <;> simp [Reading.neg, Reading.value]
  | infinite | notANumber => simp [Reading.neg, Reading.value]

theorem IsDouble.neg (h : r.IsDouble) : r.neg.IsDouble := by
  cases r <;> exact h

/-- Of two doubles, the one with the larger exponent is larger, then the one with the larger mantissa. -/
theorem compare_magnitudes {m n : Nat} {d e : Int} (hm : m < 2 ^ 53) (hn : n < 2 ^ 53) (hd : -1074 ≤ d)
    (he : -1074 ≤ e) (hm' : 2 ^ 52 ≤ m ∨ d = -1074) (hn' : 2 ^ 52 ≤ n ∨ e = -1074) :
    (compare d e).then (compare m n) = compare ((m : ℚ) * 2 ^ d) ((n : ℚ) * 2 ^ e) := by
  have hlt {m n : Nat} {d e : Int} (hm : m < 2 ^ 53) (hn : 2 ^ 52 ≤ n) (hde : d < e) :
      (m : ℚ) * 2 ^ d < (n : ℚ) * 2 ^ e := by
    have hpow : (0 : ℚ) < 2 ^ d := zpow_pos (by norm_num) d
    calc (m : ℚ) * 2 ^ d < 2 ^ 53 * 2 ^ d := by
          have hm' : (m : ℚ) < 2 ^ 53 := by exact_mod_cast hm
          exact mul_lt_mul_of_pos_right hm' hpow
      _ = 2 ^ 52 * 2 ^ (d + 1) := by
          rw [zpow_add₀ (by norm_num)]
          ring
      _ ≤ 2 ^ 52 * 2 ^ e := by
          have hexp : (2 : ℚ) ^ (d + 1) ≤ 2 ^ e := zpow_le_zpow_right₀ (by norm_num) hde
          exact mul_le_mul_of_nonneg_left hexp (by positivity)
      _ ≤ (n : ℚ) * 2 ^ e := by
          have hn' : (2 ^ 52 : ℚ) ≤ n := by exact_mod_cast hn
          exact mul_le_mul_of_nonneg_right hn' (zpow_pos (by norm_num) e).le
  rcases lt_trichotomy d e with hde | hde | hde
  · have hn : 2 ^ 52 ≤ n := hn'.resolve_right (by omega)
    rw [compare_lt_iff_lt.mpr hde, compare_lt_iff_lt.mpr (hlt hm hn hde)]
    rfl
  · subst hde
    have hpow : (0 : ℚ) < 2 ^ d := zpow_pos (by norm_num) d
    rw [compare_eq_iff_eq.mpr rfl]
    rcases lt_trichotomy m n with h | h | h
    · have h' : (m : ℚ) < n := by exact_mod_cast h
      rw [compare_lt_iff_lt.mpr (mul_lt_mul_of_pos_right h' hpow)]
      exact compare_lt_iff_lt.mpr h
    · subst h
      rw [compare_eq_iff_eq.mpr rfl, compare_eq_iff_eq.mpr rfl]
      rfl
    · have h' : (n : ℚ) < m := by exact_mod_cast h
      rw [compare_gt_iff_gt.mpr (mul_lt_mul_of_pos_right h' hpow)]
      exact compare_gt_iff_gt.mpr h
  · have hm : 2 ^ 52 ≤ m := hm'.resolve_right (by omega)
    rw [compare_gt_iff_gt.mpr hde, compare_gt_iff_gt.mpr (hlt hn hm hde)]
    rfl

def isFinite : Reading → Bool
  | .finite _ _ _ => true
  | _ => false

theorem compare_neg_swap (p q : ℚ) : compare (-p) (-q) = (compare p q).swap := by
  rcases lt_trichotomy p q with h | h | h
  · rw [compare_lt_iff_lt.mpr h, compare_gt_iff_gt.mpr (neg_lt_neg h)]
    rfl
  · rw [h, compare_eq_iff_eq.mpr rfl, compare_eq_iff_eq.mpr rfl]
    rfl
  · rw [compare_gt_iff_gt.mpr h, compare_lt_iff_lt.mpr (neg_lt_neg h)]
    rfl

theorem compare_unpacked {r s : Reading} (hr : r.IsDouble) (hs : s.IsDouble) (hr' : r.isFinite = true)
    (hs' : s.isFinite = true) : r.unpacked.compare s.unpacked = some (compare r.value s.value) := by
  cases r with
  | finite negative m d =>
    cases s with
    | finite negative' n e =>
      obtain ⟨hm, hd, -, hm'⟩ := hr
      obtain ⟨hn, he, -, hn'⟩ := hs
      have hcompare := compare_magnitudes hm hn hd he hm' hn'
      rw [value_eq, value_eq]
      have hpos (k : Nat) (i : Int) : (0 : ℚ) < (k + 1 : Nat) * 2 ^ i :=
        mul_pos (by exact_mod_cast k.succ_pos) (zpow_pos (by norm_num) i)
      cases m with
      | zero =>
        cases n with
        | zero => exact congrArg some (compare_eq_iff_eq.mpr rfl).symm
        | succ n =>
          cases negative'
          · exact congrArg some (compare_lt_iff_lt.mpr (hpos n e)).symm
          · exact congrArg some (compare_gt_iff_gt.mpr (neg_lt_zero.mpr (hpos n e))).symm
      | succ m =>
        cases n with
        | zero =>
          cases negative
          · exact congrArg some (compare_gt_iff_gt.mpr (hpos m d)).symm
          · exact congrArg some (compare_lt_iff_lt.mpr (neg_lt_zero.mpr (hpos m d))).symm
        | succ n =>
          cases negative <;> cases negative'
          · exact congrArg some hcompare
          · exact congrArg some (compare_gt_iff_gt.mpr ((neg_lt_zero.mpr (hpos n e)).trans (hpos m d))).symm
          · exact congrArg some (compare_lt_iff_lt.mpr ((neg_lt_zero.mpr (hpos m d)).trans (hpos n e))).symm
          · exact congrArg some ((congrArg Ordering.swap hcompare).trans (compare_neg_swap _ _).symm)
    | infinite | notANumber => exact nomatch hs'
  | infinite | notANumber => exact nomatch hr'

end Reading

namespace Binary64

def value (x : Float) : ℚ := (read x).value

theorem unpacked_read_neg (x : Float) : (read (-x)).unpacked = (read x).neg.unpacked := by
  have heq : -x = .ofModel (Float.Model.pack (read x).neg.unpacked) := by
    rw [← Reading.unpacked_neg, ← toModel_unpack]
    rfl
  rw [heq]
  exact unpacked_read_pack (read_isDouble x).neg

theorem value_neg (x : Float) : value (-x) = -value x := by
  rw [value, Reading.value_eq, unpacked_read_neg, ← Reading.value_eq, Reading.value_neg]
  rfl

theorem isFinite_read (h : isFinite x = true) : (read x).isFinite = true := by
  unfold isFinite at h
  split at h
  · next heq => rw [heq]; rfl
  · exact nomatch h

theorem isFinite_neg (h : isFinite x = true) : isFinite (-x) = true := by
  have hread := unpacked_read_neg x
  cases hx : read x with
  | finite negative m e =>
    rw [hx] at hread
    cases hneg : read (-x) with
    | finite => simp only [isFinite, hneg]
    | infinite | notANumber =>
      rw [hneg] at hread
      cases m <;> exact nomatch hread
  | infinite | notANumber => simp [isFinite, hx] at h

theorem compare_eq (hx : isFinite x = true) (hy : isFinite y = true) :
    x.toModel.unpack.compare y.toModel.unpack = some (compare (value x) (value y)) := by
  rw [toModel_unpack, toModel_unpack]
  exact Reading.compare_unpacked (read_isDouble x) (read_isDouble y) (isFinite_read hx) (isFinite_read hy)

theorem beq_iff (hx : isFinite x = true) (hy : isFinite y = true) : (x == y) = true ↔ value x = value y := by
  have hbeq : (x == y) = (x.toModel.unpack.compare y.toModel.unpack == some .eq) := rfl
  rw [hbeq, compare_eq hx hy, ← compare_eq_iff_eq]
  simp

theorem value_toInt? {n : Int} (h : toInt? x = some n) : value x = n := by
  unfold toInt? at h
  unfold value
  split at h
  · next negative m e hread =>
    rw [hread]
    obtain ⟨k, hk, rfl⟩ := Option.map_eq_some_iff.mp h
    have hmagnitude : (m : ℚ) * 2 ^ e = k := by
      split at hk
      · next he =>
        cases hk
        lift e to Nat using he
        simp
      · next he =>
        obtain ⟨k, rfl⟩ : ∃ k : Nat, e = -(k : Int) := ⟨(-e).toNat, by omega⟩
        rw [neg_neg, Int.toNat_natCast] at hk
        split at hk
        · next hdvd =>
          cases hk
          have hdiv : m / 2 ^ k * 2 ^ k = m := Nat.div_mul_cancel (Nat.dvd_of_mod_eq_zero hdvd)
          have hcast : (m : ℚ) = (m / 2 ^ k : Nat) * 2 ^ k := by exact_mod_cast hdiv.symm
          rw [zpow_neg, zpow_natCast, hcast, mul_assoc, mul_inv_cancel₀ (by positivity), mul_one]
          norm_cast
        · cases hk
    rw [Reading.value, hmagnitude]
    cases negative <;> simp
  · cases h

theorem isFinite_of_beq (h : (x == y) = true) (hy : isFinite y = true) : isFinite x = true := by
  have hcompare : x.toModel.unpack.compare y.toModel.unpack = some .eq := by
    have hbeq : (x == y) = (x.toModel.unpack.compare y.toModel.unpack == some .eq) := rfl
    simpa [hbeq] using h
  rw [toModel_unpack, toModel_unpack] at hcompare
  have hy' := isFinite_read hy
  cases hx : read x with
  | finite => simp only [isFinite, hx]
  | infinite negative =>
    rw [hx] at hcompare
    cases hread : read y with
    | finite negative' m e =>
      rw [hread] at hcompare
      cases m <;> cases negative <;> exact nomatch hcompare
    | infinite | notANumber =>
      rw [hread] at hy'
      exact nomatch hy'
  | notANumber =>
    rw [hx] at hcompare
    exact nomatch hcompare
end Binary64

end ShelfQuery.Number
