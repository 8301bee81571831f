import ShelfQuery.Proofs.Parser.Soundness

set_option autoImplicit false

namespace ShelfQuery.Expression

theorem Derives.ne_nil {p : Phrase} {ts : List Token} {es : List Tree} (h : Derives p ts es) :
    p ≠ .args → ts ≠ [] := by
  induction h with
  | orOne _ ih | andOne _ ih | predicateOne _ ih | sumOne _ ih | productOne _ ih | unaryOne _ ih
  | itemsLast _ ih | argsLast _ ih => exact fun _ => ih (by simp)
  | argsNone | argsSome => simp
  | _ => simp

/-- Two readings that agree go on alike if they do so on fewer tokens. -/
theorem Reads.bind_congr {β : Type} {p : Phrase} {x : Except Diagnostic (Tree × List Token)} {ts : List Token}
    {read : List Token → Except Diagnostic (Tree × List Token)} {f g : Tree × List Token → Except Diagnostic β}
    (hr : Reads p read) (hp : p ≠ .args) (hx : x = read ts)
    (h : ∀ r, r.2.length < ts.length → f r = g r) : (x >>= f) = (read ts >>= g) := by
  refine bind_congr_ok hx fun r hread => h r ?_
  obtain ⟨used, rfl, hu⟩ := hr hread
  have := List.length_pos_iff.2 (hu.ne_nil hp)
  simp only [List.length_append]
  omega

theorem expectMark_shorter {m : Mark} {ts us : List Token} (h : expectMark m ts = .ok us) :
    us.length < ts.length := by
  obtain ⟨p, rfl⟩ := expectMark_ok h
  simp

theorem expectKeyword_shorter {k : Keyword} {ts us : List Token} (h : expectKeyword k ts = .ok us) :
    us.length < ts.length := by
  obtain ⟨p, rfl⟩ := expectKeyword_ok h
  simp

theorem advance_shorter {ts : List Token} {kind : TokenKind} (h : (peek ts).kind = kind)
    (hk : kind.isEof = false) : (advance ts).length < ts.length := by
  obtain ⟨p, us, rfl, hu⟩ := peek_eq h hk
  simp [hu]

structure Settled (s s' : Diagnostic) (n m : Nat) : Prop where
  or : ∀ {ts}, 10 * ts.length + 7 ≤ n → 10 * ts.length + 7 ≤ m → parseOr s n ts = parseOr s' m ts
  orRest : ∀ {l ts}, 10 * ts.length + 1 ≤ n → 10 * ts.length + 1 ≤ m →
    parseOrRest s n l ts = parseOrRest s' m l ts
  and : ∀ {ts}, 10 * ts.length + 6 ≤ n → 10 * ts.length + 6 ≤ m → parseAnd s n ts = parseAnd s' m ts
  predicate : ∀ {ts}, 10 * ts.length + 5 ≤ n → 10 * ts.length + 5 ≤ m →
    parsePredicate s n ts = parsePredicate s' m ts
  predicateRest : ∀ {l ts}, 10 * ts.length + 2 ≤ n → 10 * ts.length + 2 ≤ m →
    parsePredicateRest s n l ts = parsePredicateRest s' m l ts
  operator : ∀ {l negated ts}, 10 * ts.length + 1 ≤ n → 10 * ts.length + 1 ≤ m →
    parseOperator s n l negated ts = parseOperator s' m l negated ts
  items : ∀ {ts}, 10 * ts.length + 8 ≤ n → 10 * ts.length + 8 ≤ m → parseItems s n ts = parseItems s' m ts
  sum : ∀ {ts}, 10 * ts.length + 4 ≤ n → 10 * ts.length + 4 ≤ m → parseSum s n ts = parseSum s' m ts
  sumRest : ∀ {l ts}, 10 * ts.length + 1 ≤ n → 10 * ts.length + 1 ≤ m →
    parseSumRest s n l ts = parseSumRest s' m l ts
  product : ∀ {ts}, 10 * ts.length + 3 ≤ n → 10 * ts.length + 3 ≤ m →
    parseProduct s n ts = parseProduct s' m ts
  productRest : ∀ {l ts}, 10 * ts.length + 1 ≤ n → 10 * ts.length + 1 ≤ m →
    parseProductRest s n l ts = parseProductRest s' m l ts
  unary : ∀ {ts}, 10 * ts.length + 2 ≤ n → 10 * ts.length + 2 ≤ m → parseUnary s n ts = parseUnary s' m ts
  primary : ∀ {ts}, 10 * ts.length + 1 ≤ n → 10 * ts.length + 1 ≤ m →
    parsePrimary s n ts = parsePrimary s' m ts
  args : ∀ {ts}, 10 * ts.length + 9 ≤ n → 10 * ts.length + 9 ≤ m → parseArgs s n ts = parseArgs s' m ts
  argsRest : ∀ {ts}, 10 * ts.length + 8 ≤ n → 10 * ts.length + 8 ≤ m →
    parseArgsRest s n ts = parseArgsRest s' m ts

namespace Settled

variable {s s' : Diagnostic} {n m : Nat} {ts : List Token} {l : Tree} (ih : Settled s s' n m)

include ih

theorem or_step (hn : 10 * ts.length + 7 ≤ n + 1) (hm : 10 * ts.length + 7 ≤ m + 1) :
    parseOr s (n + 1) ts = parseOr s' (m + 1) ts := by
  simp only [parseOr]
  exact (sound s' m).and.bind_congr (by simp) (ih.and (by omega) (by omega)) fun _ _ =>
    ih.orRest (by omega) (by omega)

theorem orRest_step (hn : 10 * ts.length + 1 ≤ n + 1) (hm : 10 * ts.length + 1 ≤ m + 1) :
    parseOrRest s (n + 1) l ts = parseOrRest s' (m + 1) l ts := by
  simp only [parseOrRest]
  split
  · next hor =>
    have hlt := advance_shorter (isKeyword_eq hor) rfl
    exact (sound s' m).and.bind_congr (by simp) (ih.and (by omega) (by omega)) fun _ _ =>
      ih.orRest (by omega) (by omega)
  · rfl

theorem and_step (hn : 10 * ts.length + 6 ≤ n + 1) (hm : 10 * ts.length + 6 ≤ m + 1) :
    parseAnd s (n + 1) ts = parseAnd s' (m + 1) ts := by
  simp only [parseAnd]
  split
  · next hnot =>
    have hlt := advance_shorter (isKeyword_eq hnot) rfl
    rw [ih.and (by omega) (by omega)]
  · refine (sound s' m).predicate.bind_congr (by simp) (ih.predicate (by omega) (by omega)) fun _ _ => ?_
    split
    · next hand =>
      have hlt := advance_shorter (isKeyword_eq hand) rfl
      rw [ih.and (by omega) (by omega)]
    · rfl

theorem predicate_step (hn : 10 * ts.length + 5 ≤ n + 1) (hm : 10 * ts.length + 5 ≤ m + 1) :
    parsePredicate s (n + 1) ts = parsePredicate s' (m + 1) ts := by
  simp only [parsePredicate]
  exact (sound s' m).sum.bind_congr (by simp) (ih.sum (by omega) (by omega)) fun _ _ =>
    ih.predicateRest (by omega) (by omega)

theorem predicateRest_step (hn : 10 * ts.length + 2 ≤ n + 1) (hm : 10 * ts.length + 2 ≤ m + 1) :
    parsePredicateRest s (n + 1) l ts = parsePredicateRest s' (m + 1) l ts := by
  simp only [parsePredicateRest]
  split
  · next op hop =>
    have hlt := advance_shorter (comparisonOf?_eq hop) rfl
    rw [ih.sum (by omega) (by omega)]
  · split
    · next hneg =>
      obtain ⟨p, us, rfl, hu, _⟩ := negates_eq hneg
      rw [hu]
      simp only [List.length_cons] at hn hm
      exact ih.operator (by omega) (by omega)
    · exact ih.operator (by omega) (by omega)

theorem operator_step {negated : Bool} (hn : 10 * ts.length + 1 ≤ n + 1) (hm : 10 * ts.length + 1 ≤ m + 1) :
    parseOperator s (n + 1) l negated ts = parseOperator s' (m + 1) l negated ts := by
  simp only [parseOperator]
  split
  · next hin =>
    have hlt := advance_shorter hin rfl
    refine bind_congr_ok rfl fun us h => ?_
    have := expectMark_shorter h
    rw [ih.items (by omega) (by omega)]
  · next hlike =>
    have hlt := advance_shorter hlike rfl
    rw [ih.sum (by omega) (by omega)]
  · next hilike =>
    have hlt := advance_shorter hilike rfl
    rw [ih.sum (by omega) (by omega)]
  · next hbetween =>
    have hlt := advance_shorter hbetween rfl
    refine (sound s' m).sum.bind_congr (by simp) (ih.sum (by omega) (by omega)) fun _ _ => ?_
    refine bind_congr_ok rfl fun vs hv => ?_
    have := expectKeyword_shorter hv
    rw [ih.sum (by omega) (by omega)]
  · rfl
  · rfl

theorem items_step (hn : 10 * ts.length + 8 ≤ n + 1) (hm : 10 * ts.length + 8 ≤ m + 1) :
    parseItems s (n + 1) ts = parseItems s' (m + 1) ts := by
  simp only [parseItems]
  refine (sound s' m).or.bind_congr (by simp) (ih.or (by omega) (by omega)) fun _ _ => ?_
  split
  · next hcomma =>
    have hlt := advance_shorter (isMark_eq hcomma) rfl
    rw [ih.items (by omega) (by omega)]
  · rfl

theorem sum_step (hn : 10 * ts.length + 4 ≤ n + 1) (hm : 10 * ts.length + 4 ≤ m + 1) :
    parseSum s (n + 1) ts = parseSum s' (m + 1) ts := by
  simp only [parseSum]
  exact (sound s' m).product.bind_congr (by simp) (ih.product (by omega) (by omega)) fun _ _ =>
    ih.sumRest (by omega) (by omega)

theorem sumRest_step (hn : 10 * ts.length + 1 ≤ n + 1) (hm : 10 * ts.length + 1 ≤ m + 1) :
    parseSumRest s (n + 1) l ts = parseSumRest s' (m + 1) l ts := by
  simp only [parseSumRest]
  split
  · next op hop =>
    have hlt := advance_shorter (sumOf?_eq hop).1 rfl
    exact (sound s' m).product.bind_congr (by simp) (ih.product (by omega) (by omega)) fun _ _ =>
      ih.sumRest (by omega) (by omega)
  · rfl

theorem product_step (hn : 10 * ts.length + 3 ≤ n + 1) (hm : 10 * ts.length + 3 ≤ m + 1) :
    parseProduct s (n + 1) ts = parseProduct s' (m + 1) ts := by
  simp only [parseProduct]
  exact (sound s' m).unary.bind_congr (by simp) (ih.unary (by omega) (by omega)) fun _ _ =>
    ih.productRest (by omega) (by omega)

theorem productRest_step (hn : 10 * ts.length + 1 ≤ n + 1) (hm : 10 * ts.length + 1 ≤ m + 1) :
    parseProductRest s (n + 1) l ts = parseProductRest s' (m + 1) l ts := by
  simp only [parseProductRest]
  split
  · next op hop =>
    have hlt := advance_shorter (productOf?_eq hop).1 rfl
    exact (sound s' m).unary.bind_congr (by simp) (ih.unary (by omega) (by omega)) fun _ _ =>
      ih.productRest (by omega) (by omega)
  · rfl

theorem unary_step (hn : 10 * ts.length + 2 ≤ n + 1) (hm : 10 * ts.length + 2 ≤ m + 1) :
    parseUnary s (n + 1) ts = parseUnary s' (m + 1) ts := by
  simp only [parseUnary]
  split
  · next hminus =>
    have hlt := advance_shorter (isMark_eq hminus) rfl
    rw [ih.unary (by omega) (by omega)]
  · exact ih.primary (by omega) (by omega)

theorem primary_step (hn : 10 * ts.length + 1 ≤ n + 1) (hm : 10 * ts.length + 1 ≤ m + 1) :
    parsePrimary s (n + 1) ts = parsePrimary s' (m + 1) ts := by
  simp only [parsePrimary]
  split
  case h_9 name hk =>
    have hlt := advance_shorter hk rfl
    split
    · next hopen =>
      have hlt' := advance_shorter (isMark_eq hopen) rfl
      rw [ih.args (by omega) (by omega)]
    · rfl
  case h_10 hk | h_11 hk =>
    have hlt := advance_shorter hk rfl
    rw [ih.or (by omega) (by omega)]
  all_goals rfl

theorem args_step (hn : 10 * ts.length + 9 ≤ n + 1) (hm : 10 * ts.length + 9 ≤ m + 1) :
    parseArgs s (n + 1) ts = parseArgs s' (m + 1) ts := by
  simp only [parseArgs]
  rw [ih.argsRest (by omega) (by omega)]

theorem argsRest_step (hn : 10 * ts.length + 8 ≤ n + 1) (hm : 10 * ts.length + 8 ≤ m + 1) :
    parseArgsRest s (n + 1) ts = parseArgsRest s' (m + 1) ts := by
  simp only [parseArgsRest]
  refine (sound s' m).or.bind_congr (by simp) (ih.or (by omega) (by omega)) fun _ _ => ?_
  split
  · next hcomma =>
    have hlt := advance_shorter (isMark_eq hcomma) rfl
    rw [ih.argsRest (by omega) (by omega)]
  · rfl

end Settled

theorem settled (s s' : Diagnostic) (n m : Nat) : Settled s s' n m := by
  induction n generalizing m with
  | zero => constructor <;> omega
  | succ n ih =>
    cases m with
    | zero => constructor <;> omega
    | succ m =>
      have ih := ih m
      exact ⟨ih.or_step, ih.orRest_step, ih.and_step, ih.predicate_step, ih.predicateRest_step, ih.operator_step,
        ih.items_step, ih.sum_step, ih.sumRest_step, ih.product_step, ih.productRest_step, ih.unary_step,
        ih.primary_step, ih.args_step, ih.argsRest_step⟩

/-- With enough fuel there is one answer, and it is never the report of missing fuel. -/
theorem parseOr_settled (ts : List Token) : ∃ answer, ∀ (stop : Diagnostic) (fuel : Nat), fuelFor ts ≤ fuel →
    parseOr stop fuel ts = answer := by
  refine ⟨parseOr (.placed .empty 0) (fuelFor ts) ts, fun stop fuel hfuel => ?_⟩
  have hneed : 10 * ts.length + 7 ≤ fuelFor ts := by
    simp only [fuelFor]
    omega
  exact (settled stop _ fuel _).or (by omega) hneed

end ShelfQuery.Expression
