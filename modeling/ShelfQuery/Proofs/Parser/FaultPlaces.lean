import ShelfQuery.Expression.Parser

set_option autoImplicit false

namespace ShelfQuery.Expression

def Gives (P : Nat → Prop) {α : Type} (Q : α → Prop) : Except Diagnostic α → Prop
  | .ok a => Q a
  | .error d => ∃ p, d.pos = some p ∧ P p

def Standing (P : Nat → Prop) (ts : List Token) : Prop := ∀ t ∈ ts, P t.pos

def Keeps (P : Nat → Prop) {α : Type} (read : List Token → Except Diagnostic (α × List Token)) : Prop :=
  ∀ ⦃ts⦄, Standing P ts → Gives P (fun x => Standing P x.2) (read ts)

section

variable {P : Nat → Prop}

theorem Gives.bind {α β : Type} {Q : α → Prop} {R : β → Prop} {x : Except Diagnostic α} {f : α → Except Diagnostic β}
    (hx : Gives P Q x) (hf : ∀ a, Q a → Gives P R (f a)) : Gives P R (x >>= f) := by
  cases x with
  | error d => exact hx
  | ok a => exact hf a hx

theorem gives_placed {α : Type} {Q : α → Prop} (fault : Fault) {p : Nat} (h : P p) :
    Gives P Q (.error (.placed fault p)) := ⟨p, rfl, h⟩

theorem Standing.peek {ts : List Token} (h : Standing P ts) (hzero : P 0) : P (peek ts).pos := by
  cases ts with
  | nil => exact hzero
  | cons t us => exact h t List.mem_cons_self

theorem Standing.advance {ts : List Token} (h : Standing P ts) : Standing P (advance ts) := by
  cases ts with
  | nil => exact h
  | cons t us =>
    simp only [Expression.advance]
    split
    · exact h
    · exact fun u hu => h u (List.mem_cons_of_mem t hu)

section

variable (hzero : P 0)
include hzero

theorem expect_gives (wanted : TokenKind) (fits : TokenKind → Bool) {ts : List Token} (h : Standing P ts) :
    Gives P (Standing P) (expect wanted fits ts) := by
  unfold expect
  dsimp only
  split
  · exact h.advance
  · exact gives_placed _ (h.peek hzero)

theorem parseIs_keeps (left : Tree) : Keeps P (parseIs left) := by
  intro ts h
  unfold parseIs
  dsimp only
  have hnext : Standing P (if (peek ts).kind.isKeyword .not then advance ts else ts) := by
    split
    · exact h.advance
    · exact h
  generalize (if (peek ts).kind.isKeyword .not then advance ts else ts) = us at hnext ⊢
  split
  · exact hnext.advance
  · split
    · exact hnext.advance.advance
    · exact gives_placed _ (hnext.peek hzero)

end

/-- The readers with the fuel `n` keep to the places where `P` holds. -/
structure Keeping (P : Nat → Prop) (stop : Diagnostic) (n : Nat) : Prop where
  or : Keeps P (parseOr stop n)
  orRest : ∀ left, Keeps P (parseOrRest stop n left)
  and : Keeps P (parseAnd stop n)
  predicate : Keeps P (parsePredicate stop n)
  predicateRest : ∀ left, Keeps P (parsePredicateRest stop n left)
  operator : ∀ left negated, Keeps P (parseOperator stop n left negated)
  items : Keeps P (parseItems stop n)
  sum : Keeps P (parseSum stop n)
  sumRest : ∀ left, Keeps P (parseSumRest stop n left)
  product : Keeps P (parseProduct stop n)
  productRest : ∀ left, Keeps P (parseProductRest stop n left)
  unary : Keeps P (parseUnary stop n)
  primary : Keeps P (parsePrimary stop n)
  args : Keeps P (parseArgs stop n)
  argsRest : Keeps P (parseArgsRest stop n)

namespace Keeping

variable {stop : Diagnostic} {n : Nat} (ih : Keeping P stop n)

include ih

theorem or_step : Keeps P (parseOr stop (n + 1)) := by
  intro ts h
  exact (ih.and h).bind fun x hx => ih.orRest x.1 hx

theorem orRest_step (left : Tree) : Keeps P (parseOrRest stop (n + 1) left) := by
  intro ts h
  simp only [parseOrRest]
  split
  · exact (ih.and h.advance).bind fun x hx => ih.orRest _ hx
  · exact h

theorem and_step : Keeps P (parseAnd stop (n + 1)) := by
  intro ts h
  simp only [parseAnd]
  split
  · exact (ih.and h.advance).bind fun x hx => hx
  · refine (ih.predicate h).bind ?_
    rintro ⟨left, us⟩ hx
    dsimp only at hx ⊢
    split
    · exact (ih.and hx.advance).bind fun y hy => hy
    · exact hx

theorem predicate_step : Keeps P (parsePredicate stop (n + 1)) := by
  intro ts h
  exact (ih.sum h).bind fun x hx => ih.predicateRest x.1 hx

theorem predicateRest_step (left : Tree) : Keeps P (parsePredicateRest stop (n + 1) left) := by
  intro ts h
  simp only [parsePredicateRest]
  split
  · exact (ih.sum h.advance).bind fun x hx => hx
  · split
    · exact ih.operator left true h.advance
    · exact ih.operator left false h

theorem operator_step (hzero : P 0) (left : Tree) (negated : Bool) :
    Keeps P (parseOperator stop (n + 1) left negated) := by
  intro ts h
  simp only [parseOperator]
  split
  · refine (expect_gives hzero _ _ h.advance).bind fun us hus => ?_
    exact (ih.items hus).bind fun x hx => hx
  · exact (ih.sum h.advance).bind fun x hx => hx
  · exact (ih.sum h.advance).bind fun x hx => hx
  · refine (ih.sum h.advance).bind fun low hlow => ?_
    refine (expect_gives hzero _ _ hlow).bind fun us hus => ?_
    exact (ih.sum hus).bind fun high hhigh => hhigh
  · exact parseIs_keeps hzero left h.advance
  · exact h

theorem items_step (hzero : P 0) : Keeps P (parseItems stop (n + 1)) := by
  intro ts h
  simp only [parseItems]
  refine (ih.or h).bind ?_
  rintro ⟨e, us⟩ hx
  dsimp only at hx ⊢
  split
  · split
    · exact hx.advance.advance
    · exact (ih.items hx.advance).bind fun y hy => hy
  · exact (expect_gives hzero _ _ hx).bind fun us hus => hus

theorem sum_step : Keeps P (parseSum stop (n + 1)) := by
  intro ts h
  exact (ih.product h).bind fun x hx => ih.sumRest x.1 hx

theorem sumRest_step (left : Tree) : Keeps P (parseSumRest stop (n + 1) left) := by
  intro ts h
  simp only [parseSumRest]
  split
  · exact (ih.product h.advance).bind fun x hx => ih.sumRest _ hx
  · exact h

theorem product_step : Keeps P (parseProduct stop (n + 1)) := by
  intro ts h
  exact (ih.unary h).bind fun x hx => ih.productRest x.1 hx

theorem productRest_step (left : Tree) : Keeps P (parseProductRest stop (n + 1) left) := by
  intro ts h
  simp only [parseProductRest]
  split
  · exact (ih.unary h.advance).bind fun x hx => ih.productRest _ hx
  · exact h

theorem unary_step : Keeps P (parseUnary stop (n + 1)) := by
  intro ts h
  simp only [parseUnary]
  split
  · exact (ih.unary h.advance).bind fun x hx => hx
  · exact ih.primary h

theorem primary_step (hzero : P 0) : Keeps P (parsePrimary stop (n + 1)) := by
  intro ts h
  have hparen (m : Mark) (f : Tree → Tree) : Gives P (fun x => Standing P x.2) (do
      let x ← parseOr stop n (advance ts)
      let us ← expectMark m x.2
      .ok (f x.1, us)) := by
    refine (ih.or h.advance).bind fun x hx => ?_
    exact (expect_gives hzero _ _ hx).bind fun us hus => hus
  simp only [parsePrimary]
  split
  case h_9 =>
    split
    · exact (ih.args h.advance.advance).bind fun x hx => hx
    · exact h.advance
  case h_10 => exact hparen .closeParen id
  case h_11 => exact hparen .closeTotal (Tree.total (peek ts).pos)
  case h_12 | h_13 => exact gives_placed _ (h.peek hzero)
  all_goals exact h.advance

theorem args_step : Keeps P (parseArgs stop (n + 1)) := by
  intro ts h
  simp only [parseArgs]
  split
  · exact h.advance
  · exact ih.argsRest h

theorem argsRest_step (hzero : P 0) : Keeps P (parseArgsRest stop (n + 1)) := by
  intro ts h
  simp only [parseArgsRest]
  refine (ih.or h).bind ?_
  rintro ⟨e, us⟩ hx
  dsimp only at hx ⊢
  split
  · exact (ih.argsRest hx.advance).bind fun y hy => hy
  · exact (expect_gives hzero _ _ hx).bind fun us hus => hus

end Keeping

theorem keeping {stop : Diagnostic} (hstop : ∃ p, stop.pos = some p ∧ P p) (hzero : P 0) (n : Nat) : Keeping P stop n := by
  induction n with
  | zero =>
    constructor <;> intros <;> exact fun _ _ => hstop
  | succ n ih =>
    exact {
      or := ih.or_step
      orRest := ih.orRest_step
      and := ih.and_step
      predicate := ih.predicate_step
      predicateRest := ih.predicateRest_step
      operator := ih.operator_step hzero
      items := ih.items_step hzero
      sum := ih.sum_step
      sumRest := ih.sumRest_step
      product := ih.product_step
      productRest := ih.productRest_step
      unary := ih.unary_step
      primary := ih.primary_step hzero
      args := ih.args_step
      argsRest := ih.argsRest_step hzero }

theorem parseTokens_error {ts : List Token} {d : Diagnostic} (h : parseTokens ts = .error d) (hts : Standing P ts)
    (hzero : P 0) : ∃ p, d.pos = some p ∧ P p := by
  have hstop : ∃ p, (Diagnostic.placed .empty 0).pos = some p ∧ P p := ⟨0, rfl, hzero⟩
  have hread := (keeping hstop hzero (fuelFor ts)).or hts
  unfold parseTokens at h
  split at h
  · cases h
    exact hstop
  · split at h
    · next hparse =>
      rw [hparse] at hread
      cases h
      exact hread
    · next tree rest hparse =>
      rw [hparse] at hread
      dsimp only at h
      split at h
      · cases h
      · cases h
        exact ⟨_, rfl, Standing.peek hread hzero⟩

end

end ShelfQuery.Expression
