import ShelfQuery.Proofs.Sql.Parts
import ShelfQuery.Proofs.Sql.Semantics

set_option autoImplicit false

namespace ShelfQuery.Sql

open ShelfQuery.Engine (notTrue)
open ShelfQuery.Expression (holdsFor)

/-- AND, which false settles, or OR, which true settles. -/
def kleene (settles : Bool) (ts : List (Option Bool)) : Option Bool :=
  if ts.contains (some settles) then some settles else if ts.contains none then none else some (!settles)

section

variable {settles b : Bool} {ts us : List (Option Bool)}

theorem kleene_of_mem (h : some settles ∈ ts) : kleene settles ts = some settles := by
  simp [kleene, h]

theorem kleene_cons_neutral (h : b ≠ settles) : kleene settles (some b :: ts) = kleene settles ts := by
  have hne : settles ≠ b := h.symm
  simp [kleene, hne]

theorem kleene_singleton (t : Option Bool) : kleene settles [t] = t := by
  cases t with
  | none => rfl
  | some b => cases b <;> cases settles <;> rfl

theorem kleene_false_eq_true : (kleene false ts == some true) = ts.all (· == some true) := by
  induction ts with
  | nil => rfl
  | cons t rest ih =>
    cases t with
    | none => by_cases h : some false ∈ rest <;> simp [kleene, h]
    | some b =>
      cases b with
      | false => simp [kleene_of_mem]
      | true =>
        rw [kleene_cons_neutral (by decide), ih]
        rfl

theorem kleene_append : kleene settles (ts ++ us) = kleene settles [kleene settles ts, kleene settles us] := by
  by_cases hts : some settles ∈ ts
  · rw [kleene_of_mem hts, kleene_of_mem (List.mem_append_left us hts), kleene_of_mem (List.mem_cons_self ..)]
  by_cases hus : some settles ∈ us
  · rw [kleene_of_mem hus, kleene_of_mem (List.mem_append_right ts hus), kleene_of_mem (by simp)]
  by_cases hts' : none ∈ ts <;> by_cases hus' : none ∈ us <;> simp [kleene, hts, hus, hts', hus']

theorem kleene_cons (t : Option Bool) : kleene settles (t :: us) = kleene settles [t, kleene settles us] := by
  have happend : kleene settles ([t] ++ us) = kleene settles [kleene settles [t], kleene settles us] :=
    kleene_append
  rwa [kleene_singleton] at happend

theorem kleene_append_congr {ts' us' : List (Option Bool)} (hts : kleene settles ts = kleene settles ts')
    (hus : kleene settles us = kleene settles us') : kleene settles (ts ++ us) = kleene settles (ts' ++ us') := by
  rw [kleene_append, hts, hus, ← kleene_append]

/-- Neither the order nor the number of equal conditions matters. -/
theorem kleene_congr (h : ∀ t, t ∈ ts ↔ t ∈ us) : kleene settles ts = kleene settles us := by
  simp [kleene, h]

end

theorem notTrue_notTrue (t : Option Bool) : notTrue (notTrue t) = t := by
  cases t with
  | none => rfl
  | some b => cases b <;> rfl

section

def isCondition : Sql → Bool
  | .literal (.bool _) => true
  | x => x.isOpenable

/-- An evaluation that follows three-valued logic where conditions are joined and negated. -/
structure Evaluates {α : Type} (eval : Sql → α) (truth : α → Option Bool) (ofTruth : Option Bool → α) : Prop where
  truth_ofTruth : ∀ t, truth (ofTruth t) = t
  condition : ∀ x, x.isCondition = true → ∃ t, eval x = ofTruth t
  literal : ∀ b, truth (eval (.literal (.bool b))) = some b
  joined : ∀ settles items, truth (eval (joined settles items)) = kleene settles (items.map fun x => truth (eval x))
  not : ∀ x, truth (eval (.not x)) = notTrue (truth (eval x))
  compare : ∀ {op inverse : CompareOp} (l r : Sql), op.inverse? = some inverse →
    truth (eval (.compare inverse l r)) = notTrue (truth (eval (.compare op l r)))
  isNull : ∀ x negated, truth (eval (.isNull x (!negated))) = notTrue (truth (eval (.isNull x negated)))
  inList : ∀ x items negated,
    truth (eval (.inList x items (!negated))) = notTrue (truth (eval (.inList x items negated)))

namespace Evaluates

variable {α : Type} {eval : Sql → α} {truth : α → Option Bool} {ofTruth : Option Bool → α}
  (h : Evaluates eval truth ofTruth)

include h

theorem ofTruth_truth {v : α} (hv : ∃ t, v = ofTruth t) : ofTruth (truth v) = v := by
  obtain ⟨t, rfl⟩ := hv
  rw [h.truth_ofTruth]

theorem opened (settles : Bool) (x : Sql) :
    kleene settles ((x.opened settles).map fun y => truth (eval y)) = truth (eval x) := by
  cases x with
  | and items =>
    cases settles with
    | false => exact (h.joined false items).symm
    | true => exact kleene_singleton _
  | or items =>
    cases settles with
    | false => exact kleene_singleton _
    | true => exact (h.joined true items).symm
  | _ => exact kleene_singleton _

theorem parts? (settles : Bool) (items : List Sql) :
    kleene settles (items.map fun x => truth (eval x)) = match parts? settles items with
      | none => some settles
      | some xs => kleene settles (xs.map fun x => truth (eval x)) := by
  induction items with
  | nil => rfl
  | cons x rest ih =>
    cases htruth : x.truth? with
    | some b =>
      rw [truth?_eq_some htruth, List.map_cons, h.literal]
      by_cases hb : b = settles
      · rw [hb, parts?_cons_settles, kleene_of_mem (by simp)]
      · rw [parts?_cons_neutral hb, kleene_cons_neutral hb, ih]
    | none =>
      rw [parts?_cons htruth, List.map_cons, kleene_cons, ih]
      cases hparts : Sql.parts? settles rest with
      | none => exact kleene_of_mem (by simp)
      | some xs =>
        simp only [Option.map_some, List.map_append]
        rw [kleene_append, h.opened]

theorem truth_combine (settles : Bool) (items : List Sql) :
    truth (eval (combine settles items)) = kleene settles (items.map fun x => truth (eval x)) := by
  rw [h.parts?]
  rcases combine_cases settles items with ⟨hparts, hc⟩ | ⟨hparts, hc⟩ | ⟨x, hparts, hc⟩ | ⟨xs, hparts, -, hc⟩
  · rw [hparts, hc, h.literal]
  · rw [hparts, hc, h.literal]
    rfl
  · rw [hparts, hc]
    exact (kleene_singleton _).symm
  · rw [hparts, hc, h.joined]

theorem truth_negate (x : Sql) : truth (eval x.negate) = notTrue (truth (eval x)) := by
  have hnegated := negated_negate x
  generalize x.negate = z at hnegated
  cases hnegated with
  | truth b =>
    rw [h.literal, h.literal]
    rfl
  | not => rw [h.not, notTrue_notTrue]
  | compare l r hop => exact h.compare l r hop
  | isNull y negated => exact h.isNull y negated
  | inList y items negated => exact h.inList y items negated
  | other => exact h.not x

/-- Joined conditions mean what AND and OR mean, if one that is left alone is a condition. -/
theorem eval_combine {settles : Bool} {items : List Sql}
    (hitems : ∀ x ∈ items, ∀ y ∈ x.opened settles, ∃ t, eval y = ofTruth t) :
    eval (combine settles items) = ofTruth (kleene settles (items.map fun x => truth (eval x))) := by
  rw [← h.truth_combine, h.ofTruth_truth]
  rcases combine_cases settles items with ⟨-, hc⟩ | ⟨-, hc⟩ | ⟨x, hparts, hc⟩ | ⟨xs, -, -, hc⟩
  · rw [hc]
    exact h.condition _ rfl
  · rw [hc]
    exact h.condition _ rfl
  · rw [hc]
    exact parts?_forall hitems hparts x (by simp)
  · rw [hc]
    cases settles <;> exact h.condition _ rfl

/-- Negation means NOT, if what it takes the NOT off is a condition. -/
theorem eval_negate {x : Sql} (hx : ∀ y, x = .not y → ∃ t, eval y = ofTruth t) :
    eval x.negate = ofTruth (notTrue (truth (eval x))) := by
  rw [← h.truth_negate, h.ofTruth_truth]
  have hnegated := negated_negate x
  generalize x.negate = z at hnegated ⊢
  cases hnegated with
  | not => exact hx z rfl
  | _ => exact h.condition _ rfl

end Evaluates

end

theorem holdsFor_inverse {op inverse : CompareOp} (h : op.inverse? = some inverse) (o : Ordering) :
    holdsFor inverse o = notTrue (holdsFor op o) := by
  cases op <;> cases h <;> cases o <;> rfl

/-- Only LIKE has no inverse, and is none. -/
theorem ne_like_of_inverse? {op inverse : CompareOp} (h : op.inverse? = some inverse) :
    op ≠ .like ∧ inverse ≠ .like := by
  cases op <;> cases h <;> simp

theorem notTrue_if (negated : Bool) (t : Option Bool) :
    (if (!negated) = true then notTrue t else t) = notTrue (if negated = true then notTrue t else t) := by
  cases negated with
  | false => rfl
  | true => exact (notTrue_notTrue t).symm

variable {p : Primitives} {f : Frame}

@[simp] theorem Primitives.truth_ofTruth (t : Option Bool) : p.truth (.ofTruth t) = t := by
  cases t with
  | none => rfl
  | some b => cases b <;> simp [Value.ofTruth, Primitives.truth]

theorem Value.HasClass.exists_truth {v : Value} (h : v.HasClass .bool) : ∃ t, v = .ofTruth t := by
  cases h with
  | null => exact ⟨none, rfl⟩
  | bool b => exact ⟨some b, rfl⟩

theorem Primitives.holds_inverse {op inverse : CompareOp} (h : op.inverse? = some inverse) (a b : Value) :
    p.holds inverse a b = notTrue (p.holds op a b) := by
  obtain ⟨hop, hinverse⟩ := ne_like_of_inverse? h
  unfold Primitives.holds
  rw [if_neg hop, if_neg hinverse]
  split
  · rfl
  · exact holdsFor_inverse h _

def truthIn (p : Primitives) (f : Frame) (x : Sql) : Option Bool := p.truth (x.eval p f)

theorem evaluates_eval (p : Primitives) (f : Frame) : Evaluates (eval p f) p.truth .ofTruth where
  truth_ofTruth := Primitives.truth_ofTruth
  condition x hx := by
    cases x with
    | literal l =>
      cases l with
      | bool b => exact ⟨some b, rfl⟩
      | _ => exact nomatch hx
    | and | or | not | compare | isNull | inList => exact ⟨_, rfl⟩
    | _ => exact nomatch hx
  literal b := Primitives.truth_ofTruth (some b)
  joined settles items := by
    have hmap : (evalAll p f items).map p.truth = items.map fun x => p.truth (x.eval p f) := by
      rw [evalAll_eq_map, List.map_map]
      rfl
    rw [← hmap]
    cases settles <;> exact Primitives.truth_ofTruth _
  not x := Primitives.truth_ofTruth _
  compare l r hop := by
    refine (Primitives.truth_ofTruth _).trans ((p.holds_inverse hop _ _).trans ?_)
    exact congrArg notTrue (Primitives.truth_ofTruth _).symm
  isNull x negated := by
    refine (Primitives.truth_ofTruth _).trans (Eq.trans ?_ (congrArg notTrue (Primitives.truth_ofTruth _).symm))
    cases (x.eval p f).isNull <;> cases negated <;> rfl
  inList x items negated := by
    refine (Primitives.truth_ofTruth _).trans (Eq.trans ?_ (congrArg notTrue (Primitives.truth_ofTruth _).symm))
    exact notTrue_if negated _

theorem eval_combine {settles : Bool} {items : List Sql}
    (h : ∀ x ∈ items, ∀ y ∈ x.opened settles, (y.eval p f).HasClass .bool) :
    (combine settles items).eval p f = .ofTruth (kleene settles (items.map (truthIn p f))) :=
  (evaluates_eval p f).eval_combine fun x hx y hy => (h x hx y hy).exists_truth

theorem eval_negate {x : Sql} (h : ∀ y, x = .not y → (y.eval p f).HasClass .bool) :
    x.negate.eval p f = .ofTruth (notTrue (x.truthIn p f)) :=
  (evaluates_eval p f).eval_negate fun y hy => (h y hy).exists_truth

end ShelfQuery.Sql
