import ShelfQuery.Engine.Evaluate
import ShelfQuery.Proofs.Sql.ThreeValued

set_option autoImplicit false

namespace ShelfQuery.Sql

open ShelfQuery.Engine (notTrue)

def kleeneNot : Option Bool → Option Bool
  | some true => some false
  | some false => some true
  | none => none

def kleeneAnd : Option Bool → Option Bool → Option Bool
  | some true, some true => some true
  | some false, _ => some false
  | _, some false => some false
  | _, _ => none

def kleeneOr : Option Bool → Option Bool → Option Bool
  | some false, some false => some false
  | some true, _ => some true
  | _, some true => some true
  | _, _ => none

theorem notTrue_eq (t : Option Bool) : notTrue t = kleeneNot t := by
  cases t with
  | none => rfl
  | some b => cases b <;> rfl

theorem kleene_false_eq (ts : List (Option Bool)) : kleene false ts = ts.foldr kleeneAnd (some true) := by
  have hpair (t u : Option Bool) : kleene false [t, u] = kleeneAnd t u := by
    rcases t with _ | _ | _ <;> rcases u with _ | _ | _ <;> rfl
  induction ts with
  | nil => rfl
  | cons t ts ih => rw [kleene_cons, hpair, ih, List.foldr_cons]

theorem kleene_true_eq (ts : List (Option Bool)) : kleene true ts = ts.foldr kleeneOr (some false) := by
  have hpair (t u : Option Bool) : kleene true [t, u] = kleeneOr t u := by
    rcases t with _ | _ | _ <;> rcases u with _ | _ | _ <;> rfl
  induction ts with
  | nil => rfl
  | cons t ts ih => rw [kleene_cons, hpair, ih, List.foldr_cons]

section

def operands : Sql → List Sql
  | .and items => items
  | .or items => items
  | .not x => [x]
  | _ => []

theorem mem_operands_of_opened {settles : Bool} {x y : Sql} (h : y ∈ x.opened settles) : y = x ∨ y ∈ x.operands := by
  cases x with
  | and items =>
    cases settles with
    | false => exact .inr h
    | true => exact .inl (List.mem_singleton.mp h)
  | or items =>
    cases settles with
    | false => exact .inl (List.mem_singleton.mp h)
    | true => exact .inr h
  | _ => exact .inl (List.mem_singleton.mp h)

/-- Where expressions are true, false or null, and so is what they are made of if they are made by AND, OR or
NOT, they are negated and joined by the tables. -/
structure FollowsTables {α : Type} (eval : Sql → α) (ofTruth : Option Bool → α) : Prop where
  negate : ∀ x t, eval x = ofTruth t → (∀ y ∈ x.operands, ∃ u, eval y = ofTruth u) →
    eval x.negate = ofTruth (kleeneNot t)
  allOf : ∀ (items : List Sql) (ts : List (Option Bool)), items.map eval = ts.map ofTruth →
    (∀ x ∈ items, ∀ y ∈ x.operands, ∃ u, eval y = ofTruth u) →
    eval (allOf items) = ofTruth (ts.foldr kleeneAnd (some true))
  anyOf : ∀ (items : List Sql) (ts : List (Option Bool)), items.map eval = ts.map ofTruth →
    (∀ x ∈ items, ∀ y ∈ x.operands, ∃ u, eval y = ofTruth u) →
    eval (anyOf items) = ofTruth (ts.foldr kleeneOr (some false))

section

variable {α : Type} {eval : Sql → α} {truth : α → Option Bool} {ofTruth : Option Bool → α}
  (h : Evaluates eval truth ofTruth)

include h

theorem Evaluates.combine_eq (settles : Bool) {items : List Sql} {ts : List (Option Bool)}
    (hitems : items.map eval = ts.map ofTruth)
    (hoperands : ∀ x ∈ items, ∀ y ∈ x.operands, ∃ u, eval y = ofTruth u) :
    eval (combine settles items) = ofTruth (kleene settles ts) := by
  have htruths : (items.map fun x => truth (eval x)) = ts :=
    calc (items.map fun x => truth (eval x))
      _ = (items.map eval).map truth := List.map_map.symm
      _ = (ts.map ofTruth).map truth := by rw [hitems]
      _ = ts := by simp [Function.comp_def, h.truth_ofTruth]
  rw [← htruths]
  refine h.eval_combine fun x hx y hy => ?_
  rcases mem_operands_of_opened hy with rfl | hy
  · have hmem : eval y ∈ ts.map ofTruth := hitems ▸ List.mem_map_of_mem hx
    obtain ⟨t, -, ht⟩ := List.mem_map.mp hmem
    exact ⟨t, ht.symm⟩
  · exact hoperands x hx y hy

theorem Evaluates.followsTables : FollowsTables eval ofTruth where
  negate x t hx hoperands := by
    rw [h.eval_negate fun y hy => hoperands y (by rw [hy]; exact List.mem_singleton.mpr rfl), hx, h.truth_ofTruth,
      notTrue_eq]
  allOf items ts hitems hoperands := by
    rw [allOf_eq, h.combine_eq false hitems hoperands, kleene_false_eq]
  anyOf items ts hitems hoperands := by
    rw [anyOf_eq, h.combine_eq true hitems hoperands, kleene_true_eq]

end

end

end ShelfQuery.Sql

namespace ShelfQuery.Engine

open ShelfQuery.Sql

variable {tables : List StoredTable} {f : Focus}

@[simp] theorem truth_ofTruth (t : Option Bool) : truth (ofTruth t) = t := by
  cases t with
  | none => rfl
  | some b => cases b <;> rfl

theorem evalAll_eq (items : List Sql) : evalAll tables f items = items.map (eval tables f) := by
  induction items with
  | nil => rfl
  | cons x rest ih => exact congrArg (eval tables f x :: ·) ih

theorem holds_inverse {op inverse : CompareOp} (h : op.inverse? = some inverse) (affinity : Affinity) (a b : Rows.Cell) :
    holds inverse affinity a b = notTrue (holds op affinity a b) := by
  obtain ⟨hop, hinverse⟩ := ne_like_of_inverse? h
  unfold holds
  rw [if_neg hop, if_neg hinverse]
  split
  · rfl
  · exact holdsFor_inverse h _

theorem evaluates_eval (tables : List StoredTable) (f : Focus) : Sql.Evaluates (eval tables f) truth ofTruth where
  truth_ofTruth := truth_ofTruth
  condition x hx := by
    cases x with
    | literal l =>
      cases l with
      | bool b => exact ⟨some b, rfl⟩
      | _ => exact nomatch hx
    | isNull x negated => exact ⟨some _, rfl⟩
    | and | or | not | compare | inList => exact ⟨_, rfl⟩
    | _ => exact nomatch hx
  literal b := truth_ofTruth (some b)
  joined settles items := by
    have hmap : (evalAll tables f items).map truth = items.map fun x => truth (eval tables f x) := by
      rw [evalAll_eq, List.map_map]
      rfl
    rw [← hmap]
    cases settles <;> exact truth_ofTruth _
  not x := truth_ofTruth _
  compare l r hop := by
    refine (truth_ofTruth _).trans ((holds_inverse hop _ _ _).trans ?_)
    exact congrArg notTrue (truth_ofTruth _).symm
  isNull x negated := by
    refine (truth_ofTruth (some _)).trans (Eq.trans ?_ (congrArg notTrue (truth_ofTruth (some _)).symm))
    cases (eval tables f x).isNull <;> cases negated <;> rfl
  inList x items negated := by
    refine (truth_ofTruth _).trans (Eq.trans ?_ (congrArg notTrue (truth_ofTruth _).symm))
    exact notTrue_if negated _

end ShelfQuery.Engine

namespace ShelfQuery.Sql

/-- Negating and joining conditions follows Kleene's tables on every row of stored tables, and on every row of
any database. -/
theorem connectives_follow_tables :
    (∀ tables f, Sql.FollowsTables (Engine.eval tables f) Engine.ofTruth) ∧
    ∀ p f, Sql.FollowsTables (Sql.eval p f) Value.ofTruth :=
  ⟨fun tables f => (Engine.evaluates_eval tables f).followsTables, fun p f => (Sql.evaluates_eval p f).followsTables⟩

/-- Two is in a list with null or not: that is unknown, and so is the opposite. -/
theorem connectives_follow_tables_unknown :
    let table : Engine.StoredTable := ⟨"t", [⟨"n", "INTEGER"⟩], [[.int 2]]⟩
    let eval : Sql → Rows.Cell := Engine.eval [table] (.ofTable table)
    let n : Sql := .column "t" "n"
    let listed : Sql := .inList n [.literal (.int 1), .literal .null] false
    let large : Sql := .compare .gt n (.literal (.int 1))
    let unlike : Sql := .not (.compare .like n (.literal (.text "1%")))
    eval listed = .null ∧ eval listed.negate = .null ∧ eval unlike.negate = .int 0 ∧
      eval (.allOf [.and [large, unlike], listed, .literal (.bool true)]) = .null ∧
      eval (.anyOf [listed, .or [.isNull n false, large]]) = .int 1 := by
  intro table eval n listed large unlike
  have hlisted : eval listed = Engine.ofTruth none := by rfl
  have hlarge : eval large = Engine.ofTruth (some true) := by rfl
  have hunlike : eval unlike = Engine.ofTruth (some true) := by rfl
  have hlike : eval (.compare .like n (.literal (.text "1%"))) = Engine.ofTruth (some false) := by rfl
  have hnull : eval (.isNull n false) = Engine.ofTruth (some false) := by rfl
  have hfollows := connectives_follow_tables.1 [table] (.ofTable table)
  refine ⟨hlisted, hfollows.negate listed none hlisted nofun,
    hfollows.negate unlike (some true) hunlike (List.forall_mem_singleton.mpr ⟨_, hlike⟩),
    hfollows.allOf _ [some true, none, some true] (by rfl) ?_, hfollows.anyOf _ [none, some true] (by rfl) ?_⟩
  · simpa [Sql.operands, listed] using ⟨⟨_, hlarge⟩, ⟨_, hunlike⟩⟩
  · simpa [Sql.operands, listed] using ⟨⟨_, hnull⟩, ⟨_, hlarge⟩⟩

end ShelfQuery.Sql
