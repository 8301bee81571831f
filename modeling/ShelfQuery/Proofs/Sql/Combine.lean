import ShelfQuery.Sql.Tree

set_option autoImplicit false

/-!
# AND and OR alike

`Sql.allOf` and `Sql.anyOf` are one function, `Sql.combine`, of the truth value that settles the whole: false settles
AND, true settles OR.
-/

namespace ShelfQuery.Sql

def truth? : Sql → Option Bool
  | .literal (.bool b) => some b
  | _ => none

def opened (settles : Bool) : Sql → List Sql
  | .and items => if settles then [.and items] else items
  | .or items => if settles then items else [.or items]
  | x => [x]

def joined (settles : Bool) (items : List Sql) : Sql := if settles then .or items else .and items

/-- Conditions to be joined, opened and without those that do not matter; `none` when one settles
the whole. -/
def parts? (settles : Bool) : List Sql → Option (List Sql)
  | [] => some []
  | x :: rest =>
    match x.truth? with
    | some b => if b = settles then none else parts? settles rest
    | none => (parts? settles rest).map (x.opened settles ++ ·)

def combine (settles : Bool) (items : List Sql) : Sql :=
  match parts? settles items with
  | none => .literal (.bool settles)
  | some [] => .literal (.bool (!settles))
  | some [x] => x
  | some xs => joined settles xs

theorem truth?_eq_some {x : Sql} {b : Bool} (h : x.truth? = some b) : x = .literal (.bool b) := by
  unfold truth? at h
  split at h
  · cases h
    rfl
  · exact nomatch h

section

variable {settles b : Bool} {x : Sql} {rest : List Sql}

theorem parts?_cons (h : x.truth? = none) :
    parts? settles (x :: rest) = (parts? settles rest).map (x.opened settles ++ ·) := by
  simp only [parts?, h]

theorem parts?_cons_settles : parts? settles (.literal (.bool settles) :: rest) = none := by
  simp [parts?, truth?]

theorem parts?_cons_neutral (h : b ≠ settles) : parts? settles (.literal (.bool b) :: rest) = parts? settles rest := by
  simp [parts?, truth?, h]

theorem parts?_forall {Q : Sql → Prop} {items xs : List Sql} (hopened : ∀ x ∈ items, ∀ y ∈ x.opened settles, Q y)
    (h : parts? settles items = some xs) : ∀ x ∈ xs, Q x := by
  induction items generalizing xs with
  | nil =>
    cases h
    exact nofun
  | cons x rest ih =>
    have hrest : ∀ y ∈ rest, ∀ z ∈ y.opened settles, Q z := fun y hy => hopened y (List.mem_cons_of_mem _ hy)
    simp only [parts?] at h
    split at h
    · split at h
      · exact nomatch h
      · exact ih hrest h
    · obtain ⟨ys, hys, rfl⟩ := Option.map_eq_some_iff.mp h
      intro y hy
      rcases List.mem_append.mp hy with hy | hy
      · exact hopened x (by simp) y hy
      · exact ih hrest hys y hy

end

theorem parts?_cons_closed {settles : Bool} {x : Sql} (htruth : ∀ b, x ≠ .literal (.bool b)) (hopened : x.opened settles = [x])
    (rest : List Sql) : parts? settles (x :: rest) = (parts? settles rest).map (x :: ·) := by
  have hnone : x.truth? = none := by
    cases h : x.truth? with
    | none => rfl
    | some b => exact absurd (truth?_eq_some h) (htruth b)
  rw [parts?_cons hnone, hopened]
  rfl

theorem conjuncts?_eq (items : List Sql) : conjuncts? items = parts? false items := by
  fun_induction conjuncts? items with
  | case1 => rfl
  | case2 rest ih => exact ih
  | case3 => rfl
  | case4 inner rest ih =>
    rw [ih]
    rfl
  | case5 x rest htrue hfalse hand ih =>
    have hopened : x.opened false = [x] := by
      cases x with
      | and inner => exact absurd rfl (hand inner)
      | _ => rfl
    rw [parts?_cons_closed (Bool.rec hfalse htrue) hopened, ih]

theorem disjuncts?_eq (items : List Sql) : disjuncts? items = parts? true items := by
  fun_induction disjuncts? items with
  | case1 => rfl
  | case2 rest ih => exact ih
  | case3 => rfl
  | case4 inner rest ih =>
    rw [ih]
    rfl
  | case5 x rest hfalse htrue hor ih =>
    have hopened : x.opened true = [x] := by
      cases x with
      | or inner => exact absurd rfl (hor inner)
      | _ => rfl
    rw [parts?_cons_closed (Bool.rec hfalse htrue) hopened, ih]

theorem allOf_eq (items : List Sql) : allOf items = combine false items := by
  unfold allOf combine
  rw [conjuncts?_eq]
  rfl

theorem anyOf_eq (items : List Sql) : anyOf items = combine true items := by
  unfold anyOf combine
  rw [disjuncts?_eq]
  rfl

/-- Joining gives a truth value, one condition, or at least two that are joined. -/
theorem combine_cases (settles : Bool) (items : List Sql) :
    parts? settles items = none ∧ combine settles items = .literal (.bool settles) ∨
    parts? settles items = some [] ∧ combine settles items = .literal (.bool (!settles)) ∨
    (∃ x, parts? settles items = some [x] ∧ combine settles items = x) ∨
    ∃ xs, parts? settles items = some xs ∧ 2 ≤ xs.length ∧ combine settles items = joined settles xs := by
  unfold combine
  cases h : parts? settles items with
  | none => exact .inl ⟨rfl, rfl⟩
  | some xs =>
    match xs with
    | [] => exact .inr (.inl ⟨rfl, rfl⟩)
    | [x] => exact .inr (.inr (.inl ⟨x, rfl, rfl⟩))
    | x :: y :: rest => exact .inr (.inr (.inr ⟨x :: y :: rest, rfl, by simp, rfl⟩))

/-- Negation is taken inside, or taken off, or put in front. -/
inductive Negated : Sql → Sql → Prop where
  | truth (b : Bool) : Negated (.literal (.bool b)) (.literal (.bool (!b)))
  | not (x : Sql) : Negated (.not x) x
  | compare {op inverse : CompareOp} (l r : Sql) : op.inverse? = some inverse →
      Negated (.compare op l r) (.compare inverse l r)
  | isNull (x : Sql) (negated : Bool) : Negated (.isNull x negated) (.isNull x (!negated))
  | inList (x : Sql) (items : List Sql) (negated : Bool) : Negated (.inList x items negated) (.inList x items (!negated))
  | other (x : Sql) : Negated x (.not x)

theorem negated_negate (x : Sql) : Negated x x.negate := by
  fun_cases negate x with
  | case1 b => exact .truth b
  | case2 arg => exact .not arg
  | case3 op l r inverse hop => exact .compare l r hop
  | case5 arg negated => exact .isNull arg negated
  | case6 arg items negated => exact .inList arg items negated
  | case4 | case7 => exact .other _

end ShelfQuery.Sql
