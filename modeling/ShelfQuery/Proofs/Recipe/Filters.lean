import ShelfQuery.Proofs.Data.Except
import ShelfQuery.Proofs.Sql.Combine
import ShelfQuery.Recipe.Filter

set_option autoImplicit false

/-!
# What filters are built of

A filter is built of the value of an ingredient, of its quick selections and of literals, by a few
constructions. What these keep is true of every filter.
-/

namespace ShelfQuery.Recipe

open ShelfQuery.Shelf ShelfQuery.Sql ShelfQuery.Data ShelfQuery.Calendar ShelfQuery.Expression

/-- The constructions of filters keep `Q` for operands and `P` for conditions. -/
structure FilterClosed (Q P : Sql → Prop) : Prop where
  literal : ∀ l, Q (.literal l)
  truth : ∀ b, P (.literal (.bool b))
  cast : ∀ {x}, Q x → Q (.cast x .varchar)
  lower : ∀ {x}, Q x → Q (.func "lower" [x])
  compare : ∀ {op x y}, Q x → Q y → P (.compare op x y)
  isNull : ∀ {x negated}, Q x → P (.isNull x negated)
  between : ∀ {x low high}, Q x → Q low → Q high → P (.between x low high)
  inList : ∀ {x items}, Q x → (∀ y ∈ items, Q y) → P (.inList x items false)
  negate : ∀ {x}, P x → P x.negate
  combine : ∀ {settles items}, (∀ x ∈ items, P x) → P (Sql.combine settles items)

namespace FilterClosed

variable {Q P : Sql → Prop} (hclosed : FilterClosed Q P) {i : Ingredient} {now : DateTime}

include hclosed

theorem anyOf {items : List Sql} (h : ∀ x ∈ items, P x) : P (.anyOf items) := by
  rw [Sql.anyOf_eq]
  exact hclosed.combine h

theorem compareWith (op : CompareOp) {x : Sql} (h : Q x) (l : Literal) : P (compareWith op x l) := by
  unfold Recipe.compareWith
  split
  · exact hclosed.isNull h
  · exact hclosed.isNull h
  · exact hclosed.compare h (hclosed.literal l)

theorem membership {column : Sql} (hasNull : Bool) (literals : List Literal) {conditions : List Sql} (hcolumn : Q column)
    (hconditions : ∀ x ∈ conditions, P x) : P (membership column hasNull literals conditions) := by
  have hamong : P (.inList column (literals.map .literal) false) := by
    refine hclosed.inList hcolumn fun y hy => ?_
    obtain ⟨l, -, rfl⟩ := List.mem_map.mp hy
    exact hclosed.literal l
  unfold Recipe.membership
  dsimp only
  split
  · refine hclosed.anyOf fun x hx => ?_
    simp only [List.append_assoc, List.mem_append] at hx
    rcases hx with hx | hx | hx
    · split at hx
      · exact List.eq_of_mem_singleton hx ▸ hclosed.isNull hcolumn
      · exact nomatch hx
    · split at hx
      · exact nomatch hx
      · exact List.eq_of_mem_singleton hx ▸ hamong
    · exact hconditions x hx
  · split
    · exact hclosed.truth false
    · exact hamong

section

variable (hvalue : Q i.value.sql) (hquick : ∀ q ∈ i.quickSelects, P q.2)

include hvalue in
theorem filterColumn (texts : Bool) : Q (filterColumn i texts) := by
  unfold Recipe.filterColumn
  split
  · exact hclosed.cast hvalue
  · exact hvalue

omit hclosed in
include hquick in
theorem quickSelect (v : Json) (x : Sql) (h : quickSelect i v = .ok x) : P x := by
  unfold Recipe.quickSelect at h
  split at h
  · next hfound =>
    cases h
    obtain ⟨q, hq, rfl⟩ := Option.map_eq_some_iff.mp hfound
    exact hquick q (List.mem_of_find?_eq_some hq)
  · exact nomatch h

include hvalue hquick

theorem scalarFilter {operator : String} {v : Json} {x : Sql} (h : scalarFilter i now operator v = .ok x) : P x := by
  have hcolumn := hclosed.filterColumn hvalue
  unfold Recipe.scalarFilter at h
  split at h
  · exact quickSelect hquick v x h
  · cases h
    exact hclosed.compare (hcolumn true) (hclosed.literal _)
  · cases h
    exact hclosed.compare (hclosed.lower (hcolumn true)) (hclosed.lower (hclosed.literal _))
  · split at h
    · exact nomatch h
    · split at h
      · cases h
        exact hclosed.compareWith _ (hcolumn _) _
      · exact nomatch h

theorem listFilter {nested : Json → Except FilterError Sql} (hnested : ∀ v x, nested v = .ok x → P x)
    {operator : String} {vs : List Json} {x : Sql} (h : listFilter i now nested operator vs = .ok x) : P x := by
  have hcolumn := hclosed.filterColumn hvalue
  unfold Recipe.listFilter at h
  split at h
  · obtain ⟨conditions, hconditions, h⟩ := bind_ok h
    cases h
    rw [Sql.allOf_eq]
    exact hclosed.combine (forall_of_mapM hnested hconditions)
  · split at h
    · obtain ⟨low, -, h⟩ := bind_ok h
      obtain ⟨high, -, h⟩ := bind_ok h
      cases h
      exact hclosed.between (hcolumn _) (hclosed.literal low) (hclosed.literal high)
    · exact nomatch h
  · obtain ⟨conditions, hconditions, h⟩ := bind_ok h
    cases h
    exact hclosed.anyOf (forall_of_mapM (quickSelect hquick) hconditions)
  · split at h
    · obtain ⟨literals, -, h⟩ := bind_ok h
      obtain ⟨conditions, hconditions, h⟩ := bind_ok h
      have hmember := hclosed.membership (vs.any isNullJson) (sortLiterals literals)
        (hcolumn ((sortLiterals literals).any isText)) (forall_of_mapM hnested hconditions)
      cases h
      split
      · exact hclosed.negate hmember
      · exact hmember
    · exact nomatch h

theorem filterWith {fuel : Nat} {operator : Option String} {v : Json} {x : Sql}
    (h : filterWith i now fuel operator v = .ok x) : P x := by
  induction fuel generalizing operator v x with
  | zero => cases h
  | succ fuel ih =>
    have hnested (v : Json) (x : Sql)
        (h : (conditionOf v >>= fun c => Recipe.filterWith i now fuel (some c.1) c.2) = .ok x) : P x := by
      obtain ⟨c, -, h⟩ := bind_ok h
      exact ih h
    cases v with
    | arr vs => exact hclosed.listFilter hvalue hquick hnested h
    | _ => exact hclosed.scalarFilter hvalue hquick h

end

end FilterClosed

end ShelfQuery.Recipe
