import ShelfQuery.Proofs.Number.Positional
import ShelfQuery.Proofs.Sql.Reader.Agreement
import ShelfQuery.Proofs.Sql.Reader.Texts

set_option autoImplicit false

namespace ShelfQuery.Sql

open ShelfQuery.Number ShelfQuery.Schema

def Literal.isMachine : Literal → Bool
  | .int n => Expression.fitsWord n
  | .float x => Binary64.isFinite x
  | _ => true

/-- Whether the digits of a number stand for it where SQL reads them. Those of an integral double from
ten to the sixteenth up have no point, so they have to be exact unless they are too many for a word. -/
def Literal.keepsDigits : Literal → Bool
  | .float x =>
    match Binary64.read x, Binary64.toInt? x with
    | .finite _ mantissa exponent, some n =>
      let written := (shortest mantissa exponent).whole
      n.natAbs < 10 ^ 16 || 2 ^ 63 ≤ written || written == n.natAbs
    | _, _ => true
  | _ => true

namespace Reader

variable {schema : Table} {conditions : List Sql}

/-- `text` is read as a literal for the number `v`, whatever follows, and begins with a digit. -/
def ReadsNumber (text : String) (v : ℚ) : Prop :=
  ∃ l : Literal, (∀ k, Reads k text (.literal l)) ∧ l.value = .num v ∧
    ∃ first rest, text.toList = first :: rest ∧ first.isDigit = true

theorem readsNumber_integer {cs : List Char} (hne : cs ≠ []) (h : IsDigits cs) {v : ℚ}
    (hv : (integerLiteral (valueOf cs)).value = .num v) : ReadsNumber (String.ofList cs) v := by
  obtain ⟨first, rest, rfl⟩ := List.exists_cons_of_ne_nil hne
  exact ⟨_, fun k => ⟨_, lexes_integer hne h, .integer _⟩, hv, first, rest, String.toList_ofList, h first (by simp)⟩

theorem readsNumber_decimal {whole fraction : List Char} (hne : whole ≠ []) (hwhole : IsDigits whole)
    (hfraction : IsDigits fraction) {v : ℚ}
    (hv : Binary64.value (Binary64.ofDecimal false (valueOf (whole ++ fraction)) (-(fraction.length : Int))) = v) :
    ReadsNumber (String.ofList (whole ++ '.' :: fraction)) v := by
  obtain ⟨first, rest, rfl⟩ := List.exists_cons_of_ne_nil hne
  refine ⟨_, fun k => ⟨_, lexes_decimal hne hwhole hfraction, .decimal _ _⟩, congrArg Value.num hv, first, _,
    String.toList_ofList, hwhole first (by simp)⟩

theorem ReadsNumber.signed {text : String} {v : ℚ} (h : ReadsNumber text v) (negative : Bool) {l : Literal}
    (hl : l.value = .num (if negative then -v else v)) :
    ∃ e, Reads 9 (signText negative ++ text) e ∧ Agrees schema conditions (.literal l) e := by
  obtain ⟨l', hreads, hvalue, first, rest, htext, hfirst⟩ := h
  cases negative with
  | false =>
    refine ⟨.literal l', ?_, .literal ?_⟩
    · simpa [signText] using hreads 9
    · rw [hvalue, hl]
      rfl
  | true =>
    have hdash : first ≠ '-' := by
      rintro rfl
      exact absurd hfirst (by decide)
    have harrow : first ≠ '>' := by
      rintro rfl
      exact absurd hfirst (by decide)
    refine ⟨.neg (.literal l'), (hreads signLevel).neg htext hdash harrow, rfl, fun d _ s _ => ?_⟩
    change d.primitives.arith .sub (.num 0) l'.value = l.value
    rw [hvalue, hl]
    exact congrArg Value.num (zero_sub v)

theorem reads_int {n : Int} (h : Expression.fitsWord n = true) :
    ∃ e, Reads 9 (toString n) e ∧ Agrees schema conditions (.literal (.int n)) e := by
  have hrange : -(2 ^ 63) ≤ n ∧ n < 2 ^ 63 := by simpa [Expression.fitsWord] using h
  have hnumber : ReadsNumber (toString n.natAbs) n.natAbs := by
    refine readsNumber_integer Nat.toDigits_ne_nil (isDigits_toDigits _) ?_
    rw [valueOf_toDigits, integerLiteral, Nat.pow_eq]
    split
    · rfl
    · -- the least word without its sign fits no word and is read as a double, which is exact
      have hlarge : n.natAbs = 2 ^ 63 := by omega
      rw [hlarge]
      exact congrArg Value.num (Binary64.value_ofDecimal_word.trans (by norm_num))
  rcases Int.lt_or_le n 0 with hneg | hpos
  · have hn : n = -(n.natAbs : Int) := by omega
    have htext : toString n = signText true ++ toString n.natAbs := by
      rw [Int.toString_eq_repr, Int.repr_eq_if, if_neg (by omega), show (-n).toNat = n.natAbs by omega]
      rfl
    rw [htext]
    exact hnumber.signed true (congrArg Value.num (by rw [if_pos rfl]; exact_mod_cast hn))
  · have hn : n = (n.natAbs : Int) := by omega
    have htext : toString n = signText false ++ toString n.natAbs := by
      rw [Int.toString_eq_repr, Int.repr_eq_if, if_pos hpos, show n.toNat = n.natAbs by omega, signText,
        if_neg (by decide), String.empty_append]
      rfl
    rw [htext]
    have hcast : (n : ℚ) = ((n.natAbs : Int) : ℚ) := congrArg _ hn
    exact hnumber.signed false (congrArg Value.num (hcast.trans (Int.cast_natCast _)))

section

variable {m : Nat} {e : Int} (hdouble : (Reading.finite false m e).IsDouble)

include hdouble

theorem readsNumber_fraction (hpos : 0 < m) (h : (shortest m e).exponent < 0) :
    ReadsNumber (positional (shortest m e)) (m * 2 ^ e) := by
  obtain ⟨whole, fraction, htext, hne, hwhole, hfraction, hvalue⟩ := shortest_fraction hdouble hpos h
  rw [htext]
  exact readsNumber_decimal hne hwhole hfraction hvalue

theorem readsNumber_point (h : 0 ≤ (shortest m e).exponent) :
    ReadsNumber (positional (shortest m e) ++ ".0") (m * 2 ^ e) := by
  obtain ⟨cs, htext, hne, hcs, hvalue⟩ := shortest_point hdouble h
  have hpoint : String.ofList cs ++ ".0" = String.ofList (cs ++ '.' :: ['0']) := String.toList_inj.mp (by simp)
  rw [htext, hpoint]
  exact readsNumber_decimal hne hcs (isDigits_zeros 1) hvalue

/-- Digits without a point, which are read as an integer if they fit a word. -/
theorem readsNumber_whole (hpos : 0 < m) (h : 0 ≤ (shortest m e).exponent)
    (hexact : (shortest m e).whole < 2 ^ 63 → ((shortest m e).whole : ℚ) = m * 2 ^ e) :
    ReadsNumber (positional (shortest m e)) (m * 2 ^ e) := by
  obtain ⟨cs, htext, hne, hcs, hvalue⟩ := positional_whole h
  rw [htext]
  refine readsNumber_integer hne hcs ?_
  rw [hvalue, integerLiteral]
  split
  · next hword => exact congrArg Value.num (by exact_mod_cast hexact hword)
  · refine congrArg Value.num (Binary64.value_ofDecimal hpos hdouble ?_)
    rw [zpow_zero, mul_one, ← Decimal.value_eq_whole h]
    exact rounds_shortest hpos hdouble.1

end

theorem reads_plain {x : Float} {negative : Bool} {m : Nat} {e : Int} (hread : Binary64.read x = .finite negative m e)
    {tail : String} (h : ReadsNumber (positional (shortest m e) ++ tail) (m * 2 ^ e)) :
    ∃ f, Reads 9 (plain x ++ tail) f ∧ Agrees schema conditions (.literal (.float x)) f := by
  have hvalue : Binary64.value x = if negative then -(m * 2 ^ e : ℚ) else m * 2 ^ e := by
    rw [Binary64.value, hread, Reading.value]
    cases negative <;> simp
  have hplain : plain x = signText negative ++ positional (shortest m e) := by simp only [plain, hread]
  rw [hplain, String.append_assoc]
  exact h.signed negative (congrArg Value.num hvalue)

theorem reads_float {x : Float} (hfinite : Binary64.isFinite x = true)
    (hdigits : (Literal.float x).keepsDigits = true) :
    ∃ e, Reads 9 (Number.literal x) e ∧ Agrees schema conditions (.literal (.float x)) e := by
  cases hread : Binary64.read x with
  | infinite | notANumber => simp [Binary64.isFinite, hread] at hfinite
  | finite negative m e =>
    have hdouble := isDouble_of_read hread
    have hunpointed (h : ReadsNumber (positional (shortest m e)) (m * 2 ^ e)) :
        ∃ f, Reads 9 (plain x) f ∧ Agrees schema conditions (.literal (.float x)) f := by
      have hreads := @reads_plain schema conditions x negative m e hread "" (by rwa [String.append_empty])
      rwa [String.append_empty] at hreads
    cases hint : Binary64.toInt? x with
    | none =>
      obtain ⟨he, hpos⟩ := negative_exponent_of_toInt? hread hint
      have hliteral : Number.literal x = plain x := by simp only [Number.literal, hint]
      rw [hliteral]
      refine hunpointed ?_
      rcases Int.lt_or_le (shortest m e).exponent 0 with hexponent | hexponent
      · exact readsNumber_fraction hdouble hpos hexponent
      · refine readsNumber_whole hdouble hpos hexponent fun _ => eq_of_rounds he.le ?_
        rw [← Decimal.value_eq_whole hexponent]
        exact rounds_shortest hpos hdouble.1
    | some n =>
      have hn := natAbs_of_toInt? hread hint
      by_cases hsmall : n.natAbs < 10 ^ 16
      · have hliteral : Number.literal x = plain x ++ ".0" := by simp only [Number.literal, hint, Nat.pow_eq, if_pos hsmall]
        rw [hliteral]
        refine reads_plain hread (readsNumber_point hdouble ?_)
        rcases Nat.eq_zero_or_pos m with rfl | hpos
        · exact Int.le_refl 0
        · exact shortest_exponent_nonneg hpos hn hsmall
      · have hliteral : Number.literal x = plain x := by simp only [Number.literal, hint, Nat.pow_eq, if_neg hsmall]
        have hpos : 0 < m := by
          rcases Nat.eq_zero_or_pos m with rfl | hpos
          · have hzero : n.natAbs = 0 := by exact_mod_cast (by simpa using hn.symm : (n.natAbs : ℚ) = 0)
            omega
          · exact hpos
        rw [hliteral]
        refine hunpointed ?_
        rcases Int.lt_or_le (shortest m e).exponent 0 with hexponent | hexponent
        · exact readsNumber_fraction hdouble hpos hexponent
        · -- no point is written, so the digits are read as an integer while they fit a word
          refine readsNumber_whole hdouble hpos hexponent fun hword => ?_
          have hexact : (shortest m e).whole = n.natAbs := by
            simp only [Literal.keepsDigits, hread, hint, Bool.or_eq_true, decide_eq_true_eq, beq_iff_eq] at hdigits
            omega
          rw [hn, hexact]

/-- Two to the sixtieth is written with seventeen digits and zeros. -/
example : (Literal.float (Binary64.ofInt (2 ^ 60))).keepsDigits = false := by decide +kernel

example : read (Number.literal (Binary64.ofInt (2 ^ 60))) = some (.literal (.int 1152921504606847000)) := by rfl

end Reader

end ShelfQuery.Sql
