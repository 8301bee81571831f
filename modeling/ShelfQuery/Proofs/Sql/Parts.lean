import ShelfQuery.Proofs.Sql.Combine
import ShelfQuery.Sql.Aggregate

set_option autoImplicit false

namespace ShelfQuery.Sql

def children : Sql → List Sql
  | .column _ _ => []
  | .literal _ => []
  | .star => []
  | .arith _ left right => [left, right]
  | .compare _ left right => [left, right]
  | .and items => items
  | .or items => items
  | .not arg => [arg]
  | .neg arg => [arg]
  | .isNull arg _ => [arg]
  | .inList arg items _ => arg :: items
  | .between arg low high => [arg, low, high]
  | .cast arg _ => [arg]
  | .case whens otherwise => whens.flatMap (fun w => [w.1, w.2]) ++ otherwise.toList
  | .func _ args => args
  | .countDistinct arg => [arg]
  | .dateTrunc _ arg _ => [arg]
  | .percentile _ arg => [arg]
  | .total _ arg => [arg]

/-- `x.Within y`: `y` is `x` or stands in it. -/
inductive Within : Sql → Sql → Prop where
  | self {x : Sql} : Within x x
  | step {x y z : Sql} : y ∈ x.children → Within y z → Within x z

theorem Within.trans {x y z : Sql} (h : x.Within y) (h' : y.Within z) : x.Within z := by
  induction h with
  | self => exact h'
  | step hchild _ ih => exact .step hchild (ih h')

def Everywhere (P : Sql → Prop) (x : Sql) : Prop := ∀ y, x.Within y → P y

def isAggregateCall : Sql → Bool
  | .func name _ => isAggregateName name
  | .countDistinct _ => true
  | .percentile _ _ => true
  | _ => false

def isNumber : Sql → Bool
  | .literal l => l.number?.isSome
  | _ => false

def isQuotient : Sql → Bool
  | .arith .div _ _ => true
  | _ => false

def isOpenable : Sql → Bool
  | .and _ => true
  | .or _ => true
  | .not _ => true
  | .compare _ _ _ => true
  | .isNull _ _ => true
  | .inList _ _ _ => true
  | _ => false

/-- A property that an expression has if its parts have it, unless it is the call of an aggregate, a
number or a quotient, and that the parts of a condition have if the condition has it. -/
structure Composes (S : Sql → Prop) : Prop where
  build : ∀ {x : Sql}, x.isAggregateCall = false → x.isNumber = false → x.isQuotient = false →
    (∀ y ∈ x.children, S y) → S x
  part : ∀ {x y : Sql}, x.isOpenable = true → S x → y ∈ x.children → S y

section

variable {P : Sql → Prop} {x y : Sql}

theorem everywhere_iff : x.Everywhere P ↔ P x ∧ ∀ y ∈ x.children, y.Everywhere P := by
  constructor
  · intro h
    exact ⟨h x .self, fun y hy z hz => h z (.step hy hz)⟩
  · rintro ⟨hx, hchildren⟩ y hy
    cases hy with
    | self => exact hx
    | step hchild hwithin => exact hchildren _ hchild _ hwithin

theorem Everywhere.child (h : x.Everywhere P) (hy : y ∈ x.children) : y.Everywhere P := (everywhere_iff.mp h).2 y hy

theorem everywhere_literal {l : Literal} (h : P (.literal l)) : (Sql.literal l).Everywhere P :=
  everywhere_iff.mpr ⟨h, nofun⟩

theorem composes_everywhere (hP : ∀ x : Sql, x.isAggregateCall = false → x.isNumber = false → P x) :
    Composes (Everywhere P) where
  build hcall hnumber _ h := everywhere_iff.mpr ⟨hP _ hcall hnumber, h⟩
  part _ h hy := h.child hy

end

namespace Composes

variable {S : Sql → Prop} (hS : Composes S) {x y z : Sql}

include hS

theorem atom (hcall : x.isAggregateCall = false) (hnumber : x.isNumber = false) (hquotient : x.isQuotient = false)
    (hchildren : x.children = []) : S x := hS.build hcall hnumber hquotient (by simp [hchildren])

theorem one (hcall : x.isAggregateCall = false) (hquotient : x.isQuotient = false) (hchildren : x.children = [y])
    (h : S y) : S x := by
  have hnumber : x.isNumber = false := by cases x <;> first | rfl | exact nomatch hchildren
  exact hS.build hcall hnumber hquotient (by simpa [hchildren] using h)

theorem compare {op : CompareOp} (hx : S x) (hy : S y) : S (.compare op x y) :=
  hS.build rfl rfl rfl (by simpa [children] using ⟨hx, hy⟩)

theorem arith {op : ArithOp} (hop : op ≠ .div) (hx : S x) (hy : S y) : S (.arith op x y) := by
  have hquotient : (Sql.arith op x y).isQuotient = false := by cases op <;> first | rfl | exact absurd rfl hop
  exact hS.build rfl rfl hquotient (by simpa [children] using ⟨hx, hy⟩)

theorem between (hx : S x) (hy : S y) (hz : S z) : S (.between x y z) :=
  hS.build rfl rfl rfl (by simpa [children] using ⟨hx, hy, hz⟩)

theorem inList {items : List Sql} {negated : Bool} (hx : S x) (h : ∀ y ∈ items, S y) : S (.inList x items negated) :=
  hS.build rfl rfl rfl (by simpa [children] using ⟨hx, h⟩)

theorem case {whens : List (Sql × Sql)} {otherwise : Option Sql} (hwhens : ∀ w ∈ whens, S w.1 ∧ S w.2)
    (helse : ∀ x, otherwise = some x → S x) : S (.case whens otherwise) := by
  refine hS.build rfl rfl rfl fun y hy => ?_
  rcases List.mem_append.mp hy with hy | hy
  · obtain ⟨w, hw, hy⟩ := List.mem_flatMap.mp hy
    simp only [List.mem_cons, List.not_mem_nil, or_false] at hy
    rcases hy with rfl | rfl
    · exact (hwhens w hw).1
    · exact (hwhens w hw).2
  · exact helse y (by simpa using hy)

theorem opened (h : S x) (settles : Bool) : ∀ y ∈ x.opened settles, S y := by
  cases x with
  | and items =>
    cases settles with
    | false => exact fun y hy => hS.part rfl h hy
    | true => simpa [Sql.opened] using h
  | or items =>
    cases settles with
    | false => simpa [Sql.opened] using h
    | true => exact fun y hy => hS.part rfl h hy
  | _ => simpa [Sql.opened] using h

theorem negate (h : S x) : S x.negate := by
  have hnegated := negated_negate x
  generalize x.negate = y at hnegated
  cases hnegated with
  | truth b => exact hS.atom rfl rfl rfl rfl
  | not x => exact hS.part rfl h (by simp [children])
  | compare | isNull | inList => exact hS.build rfl rfl rfl fun y hy => hS.part rfl h hy
  | other => exact hS.one rfl rfl rfl h

theorem combine {settles : Bool} {items : List Sql} (h : ∀ x ∈ items, S x) : S (Sql.combine settles items) := by
  have hparts {xs : List Sql} (hxs : parts? settles items = some xs) : ∀ x ∈ xs, S x :=
    parts?_forall (fun x hx => hS.opened (h x hx) settles) hxs
  rcases combine_cases settles items with ⟨-, hc⟩ | ⟨-, hc⟩ | ⟨x, hx, hc⟩ | ⟨xs, hxs, -, hc⟩
  · rw [hc]
    exact hS.atom rfl rfl rfl rfl
  · rw [hc]
    exact hS.atom rfl rfl rfl rfl
  · rw [hc]
    exact hparts hx x (by simp)
  · rw [hc]
    cases settles with
    | false => exact hS.build rfl rfl rfl (hparts hxs)
    | true => exact hS.build rfl rfl rfl (hparts hxs)

theorem anyOf {items : List Sql} (h : ∀ x ∈ items, S x) : S (Sql.anyOf items) := by
  rw [anyOf_eq]
  exact hS.combine h

theorem allOf {items : List Sql} (h : ∀ x ∈ items, S x) : S (Sql.allOf items) := by
  rw [allOf_eq]
  exact hS.combine h

end Composes

end ShelfQuery.Sql
