import ShelfQuery.Proofs.Compiler.Parts
import ShelfQuery.Proofs.Sql.Reader.Numbers

set_option autoImplicit false

namespace ShelfQuery.Sql

def HasMachineNumber : Sql → Prop
  | .literal l => l.isMachine = true
  | _ => True

end ShelfQuery.Sql

namespace ShelfQuery.Expression

open ShelfQuery.Sql ShelfQuery.Schema ShelfQuery.Number

def Tree.HasWord : Tree → Prop
  | .constant _ (.int n) => fitsWord n = true
  | _ => True

theorem fitsWord_iff {n : Int} : fitsWord n = true ↔ -(2 ^ 63) ≤ n ∧ n < 2 ^ 63 := by simp [fitsWord]

theorem isMachine_wordOr {n : Int} {x : Float} (h : fitsWord n = false → Binary64.isFinite x = true) :
    (wordOr n x).isMachine = true := by
  unfold wordOr
  split
  · next hfits => exact hfits
  · next hfits => exact h (Bool.eq_false_iff.mpr hfits)

/-- Only the least word has no opposite. -/
theorem isMachine_negateLiteral {l : Literal} (h : l.isMachine = true) : (negateLiteral l).isMachine = true := by
  cases l with
  | int n =>
    refine isMachine_wordOr fun hfits => ?_
    have hword := fitsWord_iff.mp h
    rw [← Bool.not_eq_true, fitsWord_iff] at hfits
    obtain rfl : n = -(2 ^ 63) := by omega
    decide +kernel
  | float x => exact Binary64.isFinite_neg h
  | _ => rfl

theorem isMachine_foldNumbers {op : Arith} {a b : Literal} (h : isFiniteLiteral (foldNumbers op a b) = true) :
    (foldNumbers op a b).isMachine = true := by
  generalize hv : foldNumbers op a b = v at h ⊢
  unfold foldNumbers at hv
  split at hv
  · split at hv
    · split at hv
      · subst hv
        refine isMachine_wordOr fun hfits => ?_
        simpa [wordOr, hfits, isFiniteLiteral] using h
      · subst hv
        exact h
    · subst hv
      exact h
  · subst hv
    rfl

theorem isMachine_constant {pos : Nat} {value : Constant} (hword : (Tree.constant pos value).HasWord)
    (hfinite : isFiniteLiteral value.literal = true) : value.literal.isMachine = true := by
  cases value with
  | int n => exact hword
  | float x => exact hfinite
  | _ => rfl

theorem persists_machineNumber : Persists Sql.HasMachineNumber where
  other x _ hnumber := by
    cases x with
    | literal l => cases l <;> first | rfl | exact nomatch hnumber
    | _ => trivial
  zero := rfl
  negated := isMachine_negateLiteral
  folded ha hfold := by
    cases folded_of_foldArith hfold with
    | null | text => rfl
    | one => exact ha
    | number _ _ _ _ hfinite => exact isMachine_foldNumbers hfinite
  whole hsmall := by
    rw [Nat.pow_eq] at hsmall
    exact fitsWord_iff.mpr (by omega)

theorem Compiles.machineNumbers {c : Context} {scope : Scope} {tree : Tree} {t : Typed} (h : Compiles c scope tree t)
    (hwords : tree.Everywhere Tree.HasWord) : t.sql.Everywhere Sql.HasMachineNumber := by
  refine h.everywhere persists_machineNumber trivial (@fun _ aggregate _ _ _ _ => ?_)
    fun y hy pos value hvalue hfinite => ?_
  · cases aggregate <;> trivial
  · subst hvalue
    exact isMachine_constant (hwords _ hy) hfinite

end ShelfQuery.Expression
