import ShelfQuery.Expression.Fold

set_option autoImplicit false

namespace ShelfQuery.Expression

open ShelfQuery.Sql

inductive Folded : Arith → Literal → Literal → Literal → Prop where
  | null {op a b} : a = .null ∨ b = .null → Folded op a b .null
  | text (x y : String) : Folded .add (.text x) (.text y) (.text (x ++ y))
  | one {a b} : a ≠ .null → isZero b = false → isOne b = true → isFiniteLiteral a = true → Folded .div a b a
  | number {op a b} : a ≠ .null → b ≠ .null → (∀ x y, op = .add → a = .text x → b ≠ .text y) →
      (op = .div → isZero b = false ∧ isOne b = false) → isFiniteLiteral (foldNumbers op a b) = true →
      Folded op a b (foldNumbers op a b)

theorem folded_of_foldArith {op : Arith} {a b v : Literal} (h : foldArith op a b = .ok v) : Folded op a b v := by
  unfold foldArith at h
  extract_lets finite at h
  have hfinite {l : Literal} (hl : finite l = .ok v) : isFiniteLiteral l = true ∧ l = v := by
    simp only [finite] at hl
    split at hl
    · next hf => exact ⟨hf, by injection hl⟩
    · exact nomatch hl
  split at h
  · cases h
    exact .null (.inl rfl)
  · cases h
    exact .null (.inr rfl)
  · cases h
    exact .text _ _
  · next ha hb =>
    split at h
    · exact nomatch h
    · next hzero =>
      split at h
      · next hone =>
        obtain ⟨hf, rfl⟩ := hfinite h
        exact .one ha (by simpa using hzero) hone hf
      · next hone =>
        obtain ⟨hf, rfl⟩ := hfinite h
        exact .number ha hb (fun _ _ hop => nomatch hop) (fun _ => ⟨by simpa using hzero, by simpa using hone⟩) hf
  · next hdiv ha hb htext =>
    obtain ⟨hf, rfl⟩ := hfinite h
    refine .number ha hb (fun x y hop hx hy => htext x y hop hx hy) (fun hop => ?_) hf
    exact absurd hop hdiv

end ShelfQuery.Expression
