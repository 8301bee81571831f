import ShelfQuery.Expression.Tree

set_option autoImplicit false

namespace ShelfQuery.Expression.Tree

def children : Tree → List Tree
  | .column _ _ => []
  | .constant _ _ => []
  | .star _ => []
  | .neg _ arg => [arg]
  | .not _ arg => [arg]
  | .arith _ _ left right => [left, right]
  | .compare _ _ left right => [left, right]
  | .and _ left right => [left, right]
  | .or _ left right => [left, right]
  | .inList _ arg items _ => arg :: items
  | .between _ arg low high => [arg, low, high]
  | .like _ arg pattern _ _ => [arg, pattern]
  | .isNull _ arg _ => [arg]
  | .isRange _ arg _ _ _ => [arg]
  | .call _ _ args => args
  | .total _ arg => [arg]

/-- `x.Within y`: `y` is `x` or stands in it. -/
inductive Within : Tree → Tree → Prop where
  | self {x : Tree} : Within x x
  | step {x y z : Tree} : y ∈ x.children → Within y z → Within x z

def Everywhere (Q : Tree → Prop) (x : Tree) : Prop := ∀ y, x.Within y → Q y

theorem everywhere_iff {Q : Tree → Prop} {x : Tree} : x.Everywhere Q ↔ Q x ∧ ∀ y ∈ x.children, y.Everywhere Q := by
  constructor
  · intro h
    exact ⟨h x .self, fun y hy z hz => h z (.step hy hz)⟩
  · rintro ⟨hx, hchildren⟩ y hy
    cases hy with
    | self => exact hx
    | step hchild hwithin => exact hchildren _ hchild _ hwithin

theorem Everywhere.child {Q : Tree → Prop} {x y : Tree} (h : x.Everywhere Q) (hy : y ∈ x.children) : y.Everywhere Q :=
  (everywhere_iff.mp h).2 y hy

end ShelfQuery.Expression.Tree
