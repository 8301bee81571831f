import ShelfQuery.Proofs.Lexer.Offsets
import ShelfQuery.Proofs.Parser.Termination

set_option autoImplicit false

/-!
# What is in the grammar is read

A phrase is read to its end and no further when the token after it binds looser. The readers of phrases that nest to
the left are loops; they reach their loop with the tree of the phrase.
-/

namespace ShelfQuery.Expression

/-- How tightly a token binds that may stand after a phrase; the most for one that may not. -/
def rank : TokenKind → Nat
  | .eof | .mark .closeParen | .mark .comma | .mark .closeTotal => 0
  | .keyword .or => 1
  | .keyword .and => 2
  | .keyword .not | .keyword .in | .keyword .is | .keyword .between | .keyword .like | .keyword .ilike => 3
  | .mark .eq | .mark .ne | .mark .lt | .mark .le | .mark .gt | .mark .ge => 3
  | .mark .plus | .mark .minus => 4
  | .mark .star | .mark .slash => 5
  | _ => 6

def Ends (k : Nat) (ts : List Token) : Prop := rank (peek ts).kind ≤ k

theorem Ends.mono {j k : Nat} {ts : List Token} (h : Ends j ts) (hjk : j ≤ k) : Ends k ts :=
  Nat.le_trans h hjk

def Phrase.mayStart (p : Phrase) (kind : TokenKind) : Bool :=
  !kind.isMark .closeParen &&
    match p with
    | .or | .and | .items | .args | .argList => true
    | .primary => !kind.isKeyword .not && !kind.isMark .minus
    | _ => !kind.isKeyword .not

theorem Derives.starts {p : Phrase} {ts : List Token} {es : List Tree} (h : Derives p ts es) :
    p ≠ .args → ∀ us, p.mayStart (peek (ts ++ us)).kind = true := by
  induction h with
  | constant value => cases value with
    | bool b => cases b <;> simp [Phrase.mayStart, peek, Constant.token, TokenKind.isMark, TokenKind.isKeyword]
    | _ => simp [Phrase.mayStart, peek, Constant.token, TokenKind.isMark, TokenKind.isKeyword]
  | orOne _ ih | predicateOne _ ih | sumOne _ ih | productOne _ ih | itemsLast _ ih | argsLast _ ih =>
    exact fun _ us => ih (by simp) us
  | andOne _ ih | unaryOne _ ih =>
    intro _ us
    have := ih (by simp) us
    simp_all [Phrase.mayStart]
  | argsNone | argsSome => simp
  | andNot | unaryNeg | column | word | star | call | paren | total =>
    simp [Phrase.mayStart, peek, TokenKind.isMark, TokenKind.isKeyword]
  | orMore _ _ _ ih | compare _ _ _ _ ih | between _ _ _ _ _ ih | isNull _ _ _ _ ih | isRange _ _ _ _ _ _ ih
  | sumMore _ _ _ _ ih | productMore _ _ _ _ ih | itemsComma _ _ ih | itemsMore _ _ _ ih | argsMore _ _ _ ih
  | inList _ _ _ _ _ _ ih | like _ _ _ _ _ ih =>
    intro _ us
    rw [List.append_assoc]
    exact ih (by simp) _
  | andMore _ _ _ ih =>
    intro _ us
    have := ih (by simp)
    rw [List.append_assoc]
    simp_all [Phrase.mayStart]

theorem isKeyword_of_rank_lt {k : Keyword} {kind : TokenKind} (h : rank kind < rank (.keyword k)) :
    kind.isKeyword k = false := by
  refine Bool.eq_false_iff.mpr fun hk => ?_
  rw [isKeyword_eq hk] at h
  exact Nat.lt_irrefl _ h

theorem isMark_of_rank_lt {m : Mark} {kind : TokenKind} (h : rank kind < rank (.mark m)) : kind.isMark m = false := by
  refine Bool.eq_false_iff.mpr fun hm => ?_
  rw [isMark_eq hm] at h
  exact Nat.lt_irrefl _ h

theorem comparisonOf?_mark (op : Comparison) : comparisonOf? (.mark op.mark) = some op := by cases op <;> rfl

theorem comparisonOf?_eq_none {kind : TokenKind} (h : rank kind < 3) : comparisonOf? kind = none := by
  unfold comparisonOf?
  split <;> simp_all [rank]

theorem sumOf?_mark {op : Arith} (h : op = .add ∨ op = .sub) : sumOf? (.mark op.mark) = some op := by
  rcases h with rfl | rfl <;> rfl

theorem sumOf?_eq_none {kind : TokenKind} (h : rank kind < 4) : sumOf? kind = none := by
  unfold sumOf?
  split <;> simp_all [rank]

theorem productOf?_mark {op : Arith} (h : op = .mul ∨ op = .div) : productOf? (.mark op.mark) = some op := by
  rcases h with rfl | rfl <;> rfl

theorem productOf?_eq_none {kind : TokenKind} (h : rank kind < 5) : productOf? kind = none := by
  unfold productOf?
  split <;> simp_all [rank]

theorem exists_fuel (calls : Nat) {least n : Nat} (hn : least + calls ≤ n) : ∃ k, n = k + calls :=
  ⟨n - calls, by omega⟩

section

variable (kind : TokenKind) (k : Keyword) (m : Mark) (p : Nat) (ts : List Token)

theorem peek_cons : (peek (⟨kind, p⟩ :: ts)).kind = kind := rfl

theorem advance_keyword : advance (⟨.keyword k, p⟩ :: ts) = ts := rfl

theorem advance_mark : advance (⟨.mark m, p⟩ :: ts) = ts := rfl

theorem isKeyword_self : (TokenKind.keyword k).isKeyword k = true := by simp [TokenKind.isKeyword]

theorem isMark_self : (TokenKind.mark m).isMark m = true := by simp [TokenKind.isMark]

theorem expectMark_cons : expectMark m (⟨.mark m, p⟩ :: ts) = .ok ts := by
  simp [expectMark, expect, peek_cons, isMark_self, advance_mark]

theorem expectKeyword_cons : expectKeyword k (⟨.keyword k, p⟩ :: ts) = .ok ts := by
  simp [expectKeyword, expect, peek_cons, isKeyword_self, advance_keyword]

end

section

variable {s : Diagnostic} {l : Tree} {ts : List Token} {n : Nat}

theorem parseOrRest_ends (h : Ends 0 ts) (hn : 1 ≤ n) : parseOrRest s n l ts = .ok (l, ts) := by
  obtain ⟨k, rfl⟩ := exists_fuel 1 hn
  simp [parseOrRest, isKeyword_of_rank_lt (k := .or) (Nat.lt_succ_of_le h)]

theorem parseSumRest_ends (h : Ends 3 ts) (hn : 1 ≤ n) : parseSumRest s n l ts = .ok (l, ts) := by
  obtain ⟨k, rfl⟩ := exists_fuel 1 hn
  simp [parseSumRest, sumOf?_eq_none (Nat.lt_succ_of_le h)]

theorem parseProductRest_ends (h : Ends 4 ts) (hn : 1 ≤ n) : parseProductRest s n l ts = .ok (l, ts) := by
  obtain ⟨k, rfl⟩ := exists_fuel 1 hn
  simp [parseProductRest, productOf?_eq_none (Nat.lt_succ_of_le h)]

theorem parseOperator_ends (h : Ends 2 ts) (hn : 1 ≤ n) : parseOperator s n l false ts = .ok (l, ts) := by
  obtain ⟨k, rfl⟩ := exists_fuel 1 hn
  simp only [parseOperator]
  split <;> simp_all [Ends, rank]

theorem parsePredicateRest_ends (h : Ends 2 ts) (hn : 2 ≤ n) : parsePredicateRest s n l ts = .ok (l, ts) := by
  obtain ⟨k, rfl⟩ := exists_fuel 1 hn
  have hnot : negates ts = false := by
    simp [negates, isKeyword_of_rank_lt (k := .not) (Nat.lt_succ_of_le h)]
  simp only [parsePredicateRest, comparisonOf?_eq_none (Nat.lt_succ_of_le h), hnot]
  exact parseOperator_ends h (by omega)

end

def Completes (s : Diagnostic) (p : Phrase) (ts : List Token) (es : List Tree) : Prop :=
  match p with
  | .or => ∀ ⦃e rest n m⦄, es = [e] → Ends 1 rest → 10 * (ts ++ rest).length + 7 ≤ n →
      10 * rest.length + 1 ≤ m → parseOr s n (ts ++ rest) = parseOrRest s m e rest
  | .and => ∀ ⦃e rest n⦄, es = [e] → Ends 1 rest → 10 * (ts ++ rest).length + 6 ≤ n →
      parseAnd s n (ts ++ rest) = .ok (e, rest)
  | .predicate => ∀ ⦃e rest n⦄, es = [e] → Ends 2 rest → 10 * (ts ++ rest).length + 5 ≤ n →
      parsePredicate s n (ts ++ rest) = .ok (e, rest)
  | .sum => ∀ ⦃e rest n m⦄, es = [e] → Ends 4 rest → 10 * (ts ++ rest).length + 4 ≤ n →
      10 * rest.length + 1 ≤ m → parseSum s n (ts ++ rest) = parseSumRest s m e rest
  | .product => ∀ ⦃e rest n m⦄, es = [e] → Ends 5 rest → 10 * (ts ++ rest).length + 3 ≤ n →
      10 * rest.length + 1 ≤ m → parseProduct s n (ts ++ rest) = parseProductRest s m e rest
  | .unary => ∀ ⦃e rest n⦄, es = [e] → Ends 5 rest → 10 * (ts ++ rest).length + 2 ≤ n →
      parseUnary s n (ts ++ rest) = .ok (e, rest)
  | .primary => ∀ ⦃e rest n⦄, es = [e] → Ends 5 rest → 10 * (ts ++ rest).length + 1 ≤ n →
      parsePrimary s n (ts ++ rest) = .ok (e, rest)
  | .items => ∀ ⦃rest n q⦄, 10 * (ts ++ ⟨.mark .closeParen, q⟩ :: rest).length + 8 ≤ n →
      parseItems s n (ts ++ ⟨.mark .closeParen, q⟩ :: rest) = .ok (es, rest)
  | .args => ∀ ⦃rest n q⦄, 10 * (ts ++ ⟨.mark .closeParen, q⟩ :: rest).length + 9 ≤ n →
      parseArgs s n (ts ++ ⟨.mark .closeParen, q⟩ :: rest) = .ok (es, rest)
  | .argList => ∀ ⦃rest n q⦄, 10 * (ts ++ ⟨.mark .closeParen, q⟩ :: rest).length + 8 ≤ n →
      parseArgsRest s n (ts ++ ⟨.mark .closeParen, q⟩ :: rest) = .ok (es, rest)

namespace Completes

variable {s : Diagnostic} {ts us vs ns rest : List Token} {e l r low high : Tree} {es : List Tree} {n : Nat}
  {negated : Bool}

theorem or_all (h : Completes s .or ts [e]) (hend : Ends 0 rest) (hn : 10 * (ts ++ rest).length + 7 ≤ n) :
    parseOr s n (ts ++ rest) = .ok (e, rest) := by
  rw [h rfl (hend.mono (by omega)) hn (Nat.le_refl _)]
  exact parseOrRest_ends hend (by omega)

theorem sum_all (h : Completes s .sum ts [e]) (hend : Ends 3 rest) (hn : 10 * (ts ++ rest).length + 4 ≤ n) :
    parseSum s n (ts ++ rest) = .ok (e, rest) := by
  rw [h rfl (hend.mono (by omega)) hn (Nat.le_refl _)]
  exact parseSumRest_ends hend (by omega)

theorem product_all (h : Completes s .product ts [e]) (hend : Ends 4 rest)
    (hn : 10 * (ts ++ rest).length + 3 ≤ n) : parseProduct s n (ts ++ rest) = .ok (e, rest) := by
  rw [h rfl (hend.mono (by omega)) hn (Nat.le_refl _)]
  exact parseProductRest_ends hend (by omega)

theorem orOne (h : Completes s .and ts [e]) : Completes s .or ts [e] := by
  rintro _ rest n m ⟨⟩ hend hn hm
  obtain ⟨k, rfl⟩ := exists_fuel 1 hn
  have hlen : rest.length ≤ (ts ++ rest).length := by simp
  rw [parseOr, h rfl hend (by omega)]
  exact (settled s s k m).orRest (by omega) hm

theorem orMore (hl : Completes s .or ts [l]) (hr : Completes s .and us [r]) (p : Nat) :
    Completes s .or (ts ++ ⟨.keyword .or, p⟩ :: us) [.or l.pos l r] := by
  rintro _ rest n m ⟨⟩ hend hn hm
  simp only [List.append_assoc, List.cons_append, List.length_append, List.length_cons] at hn ⊢
  obtain ⟨k, rfl⟩ := exists_fuel 1 hn
  rw [hl rfl (m := k + 1) (Nat.le_refl _) (by simp; omega) (by simp; omega)]
  simp only [parseOrRest, peek_cons, isKeyword_self, if_true, advance_keyword, ok_bind,
    hr rfl hend (n := k) (by simp; omega)]
  exact (settled s s k m).orRest (by omega) hm

theorem andNot (h : Completes s .and ts [e]) (p : Nat) :
    Completes s .and (⟨.keyword .not, p⟩ :: ts) [.not p e] := by
  rintro _ rest n ⟨⟩ hend hn
  simp only [List.cons_append, List.length_cons] at hn ⊢
  obtain ⟨k, rfl⟩ := exists_fuel 1 hn
  simp only [parseAnd, peek_cons, isKeyword_self, if_true, advance_keyword, ok_bind,
    h rfl hend (n := k) (by omega)]
  rfl

theorem parseAnd_predicate (hstart : Phrase.predicate.mayStart (peek ts).kind = true)
    (h : parsePredicate s n ts = .ok (l, rest)) :
    parseAnd s (n + 1) ts = (if (peek rest).kind.isKeyword .and then do
      let (right, ts) ← parseAnd s n (advance rest)
      .ok (.and l.pos l right, ts)
    else .ok (l, rest)) := by
  have hnot : (peek ts).kind.isKeyword .not = false := by simp_all [Phrase.mayStart]
  simp only [parseAnd, hnot, Bool.false_eq_true, if_false, h, ok_bind]

theorem andOne (hd : Derives .predicate ts [e]) (h : Completes s .predicate ts [e]) : Completes s .and ts [e] := by
  rintro _ rest n ⟨⟩ hend hn
  obtain ⟨k, rfl⟩ := exists_fuel 1 hn
  rw [parseAnd_predicate (hd.starts (by simp) _) (h rfl (hend.mono (by omega)) (by omega)),
    isKeyword_of_rank_lt (Nat.lt_succ_of_le hend)]
  rfl

theorem andMore (hd : Derives .predicate ts [l]) (hl : Completes s .predicate ts [l])
    (hr : Completes s .and us [r]) (p : Nat) :
    Completes s .and (ts ++ ⟨.keyword .and, p⟩ :: us) [.and l.pos l r] := by
  rintro _ rest n ⟨⟩ hend hn
  simp only [List.append_assoc, List.cons_append, List.length_append, List.length_cons] at hn ⊢
  obtain ⟨k, rfl⟩ := exists_fuel 1 hn
  rw [parseAnd_predicate (hd.starts (by simp) _) (hl rfl (Nat.le_refl _) (by simp; omega))]
  simp only [peek_cons, isKeyword_self, if_true, advance_keyword, ok_bind, hr rfl hend (n := k) (by simp; omega)]

theorem predicateOne (h : Completes s .sum ts [e]) : Completes s .predicate ts [e] := by
  rintro _ rest n ⟨⟩ hend hn
  obtain ⟨k, rfl⟩ := exists_fuel 1 hn
  rw [parsePredicate, h.sum_all (hend.mono (by omega)) (by omega)]
  exact parsePredicateRest_ends hend (by omega)

theorem compare (hl : Completes s .sum ts [l]) (hr : Completes s .sum us [r]) (op : Comparison) (p : Nat) :
    Completes s .predicate (ts ++ ⟨.mark op.mark, p⟩ :: us) [.compare l.pos op l r] := by
  rintro _ rest n ⟨⟩ hend hn
  simp only [List.append_assoc, List.cons_append, List.length_append, List.length_cons] at hn ⊢
  obtain ⟨k, rfl⟩ := exists_fuel 2 hn
  have hleft : Ends 3 (⟨.mark op.mark, p⟩ :: (us ++ rest)) := by cases op <;> exact Nat.le_refl _
  rw [parsePredicate, hl.sum_all hleft (by simp; omega)]
  simp only [ok_bind, parsePredicateRest, peek_cons, comparisonOf?_mark, advance_mark,
    hr.sum_all (hend.mono (by omega)) (n := k) (by simp; omega)]

/-- A word that is an operator, with its NOT, comes right after the left side. -/
theorem parsePredicate_operator (h : Completes s .sum ts [l]) (hneg : Negation ns negated) {word : Keyword} {p : Nat}
    (hword : word ∈ [.in, .like, .ilike] ∨ negated = false ∧ word ∈ [.between, .is])
    (hn : 10 * (ts ++ (ns ++ ⟨.keyword word, p⟩ :: us)).length + 3 ≤ n) :
    parsePredicate s (n + 2) (ts ++ (ns ++ ⟨.keyword word, p⟩ :: us)) =
      parseOperator s n l negated (⟨.keyword word, p⟩ :: us) := by
  have hend : Ends 3 (ns ++ ⟨.keyword word, p⟩ :: us) := by
    cases hneg with
    | absent => cases word <;> simp_all [Ends, peek_cons, rank]
    | present => exact Nat.le_refl _
  rw [parsePredicate, h.sum_all hend (by omega)]
  simp only [ok_bind, parsePredicateRest]
  cases hneg with
  | absent =>
    have hnot : negates (⟨.keyword word, p⟩ :: us) = false := by
      cases word <;> simp_all [negates, peek_cons, TokenKind.isKeyword]
    simp [comparisonOf?, peek_cons, hnot]
  | present q =>
    have hnot : negates (⟨.keyword .not, q⟩ :: ⟨.keyword word, p⟩ :: us) = true := by
      cases word <;> simp_all [negates, peek_cons, advance_keyword, TokenKind.isKeyword]
    simp [comparisonOf?, peek_cons, hnot, advance_keyword]

theorem parsePredicate_plain (h : Completes s .sum ts [l]) {word : Keyword} {p : Nat} (hword : word ∈ [.between, .is])
    (hn : 10 * (ts ++ ⟨.keyword word, p⟩ :: us).length + 3 ≤ n) :
    parsePredicate s (n + 2) (ts ++ ⟨.keyword word, p⟩ :: us) = parseOperator s n l false (⟨.keyword word, p⟩ :: us) :=
  parsePredicate_operator h .absent (.inr ⟨rfl, hword⟩) hn

theorem inList (h : Completes s .sum ts [e]) (hneg : Negation ns negated) (hitems : Completes s .items us es)
    (p q r : Nat) :
    Completes s .predicate
      (ts ++ (ns ++ ⟨.keyword .in, p⟩ :: ⟨.mark .openParen, q⟩ :: (us ++ [⟨.mark .closeParen, r⟩])))
      [.inList e.pos e es negated] := by
  rintro _ rest n ⟨⟩ hend hn
  simp only [List.append_assoc, List.cons_append, List.nil_append, List.length_append, List.length_cons] at hn ⊢
  obtain ⟨k, rfl⟩ := exists_fuel 3 hn
  have hlist : parseItems s k (us ++ ⟨.mark .closeParen, r⟩ :: rest) = .ok (es, rest) := hitems (by simp; omega)
  rw [parsePredicate_operator h hneg (by simp) (by simp; omega)]
  simp only [parseOperator, peek_cons, advance_keyword, expectMark_cons, ok_bind, hlist]

theorem like (hl : Completes s .sum ts [l]) (hneg : Negation ns negated) (hr : Completes s .sum us [r])
    (ignoreCase : Bool) (p : Nat) :
    Completes s .predicate (ts ++ (ns ++ ⟨.keyword (if ignoreCase then .ilike else .like), p⟩ :: us))
      [.like l.pos l r ignoreCase negated] := by
  rintro _ rest n ⟨⟩ hend hn
  simp only [List.append_assoc, List.cons_append, List.length_append, List.length_cons] at hn ⊢
  obtain ⟨k, rfl⟩ := exists_fuel 3 hn
  have hright := hr.sum_all (hend.mono (by omega)) (n := k) (by simp; omega)
  rw [parsePredicate_operator hl hneg (by cases ignoreCase <;> simp) (by simp; omega)]
  cases ignoreCase <;> simp [parseOperator, peek_cons, advance_keyword, hright, ok_bind]

theorem between (h : Completes s .sum ts [e]) (hlow : Completes s .sum us [low]) (hhigh : Completes s .sum vs [high])
    (p q : Nat) :
    Completes s .predicate (ts ++ ⟨.keyword .between, p⟩ :: (us ++ ⟨.keyword .and, q⟩ :: vs))
      [.between e.pos e low high] := by
  rintro _ rest n ⟨⟩ hend hn
  simp only [List.append_assoc, List.cons_append, List.length_append, List.length_cons] at hn ⊢
  obtain ⟨k, rfl⟩ := exists_fuel 3 hn
  have hfirst : parseSum s k (us ++ ⟨.keyword .and, q⟩ :: (vs ++ rest)) = .ok (low, ⟨.keyword .and, q⟩ :: (vs ++ rest)) :=
    hlow.sum_all (by simp [Ends, peek_cons, rank]) (by simp; omega)
  have hlast := hhigh.sum_all (hend.mono (by omega)) (n := k) (by simp; omega)
  rw [h.parsePredicate_plain (by simp) (by simp; omega)]
  simp only [parseOperator, peek_cons, advance_keyword, hfirst, ok_bind, expectKeyword_cons, hlast]

theorem isNull (h : Completes s .sum ts [e]) (hneg : Negation ns negated) (p q : Nat) :
    Completes s .predicate (ts ++ ⟨.keyword .is, p⟩ :: (ns ++ [⟨.keyword .null, q⟩]))
      [.isNull e.pos e negated] := by
  rintro _ rest n ⟨⟩ hend hn
  simp only [List.append_assoc, List.cons_append, List.nil_append, List.length_append, List.length_cons] at hn ⊢
  obtain ⟨k, rfl⟩ := exists_fuel 3 hn
  rw [h.parsePredicate_plain (by simp) (by simp; omega)]
  simp only [parseOperator, peek_cons, advance_keyword]
  cases hneg <;> rfl

theorem isRange (h : Completes s .sum ts [e]) (offset units : String) (p q r : Nat) :
    Completes s .predicate (ts ++ [⟨.keyword .is, p⟩, ⟨.word offset, q⟩, ⟨.word units, r⟩])
      [.isRange e.pos e offset units q] := by
  rintro _ rest n ⟨⟩ hend hn
  simp only [List.append_assoc, List.cons_append, List.nil_append, List.length_append, List.length_cons] at hn ⊢
  obtain ⟨k, rfl⟩ := exists_fuel 3 hn
  rw [h.parsePredicate_plain (by simp) (by simp; omega)]
  simp only [parseOperator, peek_cons, advance_keyword]
  rfl

theorem sumOne (h : Completes s .product ts [e]) : Completes s .sum ts [e] := by
  rintro _ rest n m ⟨⟩ hend hn hm
  obtain ⟨k, rfl⟩ := exists_fuel 1 hn
  have hlen : rest.length ≤ (ts ++ rest).length := by simp
  rw [parseSum, h.product_all hend (by omega)]
  exact (settled s s k m).sumRest (by omega) hm

theorem sumMore (hl : Completes s .sum ts [l]) (hr : Completes s .product us [r]) {op : Arith}
    (hop : op = .add ∨ op = .sub) (p : Nat) :
    Completes s .sum (ts ++ ⟨.mark op.mark, p⟩ :: us) [.arith l.pos op l r] := by
  rintro _ rest n m ⟨⟩ hend hn hm
  simp only [List.append_assoc, List.cons_append, List.length_append, List.length_cons] at hn ⊢
  obtain ⟨k, rfl⟩ := exists_fuel 1 hn
  have hleft : Ends 4 (⟨.mark op.mark, p⟩ :: (us ++ rest)) := by
    rcases hop with rfl | rfl <;> exact Nat.le_refl _
  rw [hl rfl (m := k + 1) hleft (by simp; omega) (by simp; omega)]
  simp only [parseSumRest, peek_cons, sumOf?_mark hop, advance_mark, ok_bind,
    hr.product_all hend (n := k) (by simp; omega)]
  exact (settled s s k m).sumRest (by omega) hm

theorem productOne (h : Completes s .unary ts [e]) : Completes s .product ts [e] := by
  rintro _ rest n m ⟨⟩ hend hn hm
  obtain ⟨k, rfl⟩ := exists_fuel 1 hn
  have hlen : rest.length ≤ (ts ++ rest).length := by simp
  rw [parseProduct, h rfl hend (by omega)]
  exact (settled s s k m).productRest (by omega) hm

theorem productMore (hl : Completes s .product ts [l]) (hr : Completes s .unary us [r]) {op : Arith}
    (hop : op = .mul ∨ op = .div) (p : Nat) :
    Completes s .product (ts ++ ⟨.mark op.mark, p⟩ :: us) [.arith l.pos op l r] := by
  rintro _ rest n m ⟨⟩ hend hn hm
  simp only [List.append_assoc, List.cons_append, List.length_append, List.length_cons] at hn ⊢
  obtain ⟨k, rfl⟩ := exists_fuel 1 hn
  have hleft : Ends 5 (⟨.mark op.mark, p⟩ :: (us ++ rest)) := by
    rcases hop with rfl | rfl <;> exact Nat.le_refl _
  rw [hl rfl (m := k + 1) hleft (by simp; omega) (by simp; omega)]
  simp only [parseProductRest, peek_cons, productOf?_mark hop, advance_mark, ok_bind,
    hr rfl hend (n := k) (by simp; omega)]
  exact (settled s s k m).productRest (by omega) hm

theorem unaryOne (hd : Derives .primary ts [e]) (h : Completes s .primary ts [e]) : Completes s .unary ts [e] := by
  rintro _ rest n ⟨⟩ hend hn
  obtain ⟨k, rfl⟩ := exists_fuel 1 hn
  have hstart := hd.starts (by simp) rest
  have hminus : (peek (ts ++ rest)).kind.isMark .minus = false := by simp_all [Phrase.mayStart]
  simp only [parseUnary, hminus, Bool.false_eq_true, if_false]
  exact h rfl hend (by omega)

theorem unaryNeg (h : Completes s .unary ts [e]) (p : Nat) :
    Completes s .unary (⟨.mark .minus, p⟩ :: ts) [.neg p e] := by
  rintro _ rest n ⟨⟩ hend hn
  simp only [List.cons_append, List.length_cons] at hn ⊢
  obtain ⟨k, rfl⟩ := exists_fuel 1 hn
  simp only [parseUnary, peek_cons, isMark_self, if_true, advance_mark, ok_bind, h rfl hend (n := k) (by omega)]
  rfl

theorem constant (value : Constant) (p : Nat) : Completes s .primary [⟨value.token, p⟩] [.constant p value] := by
  rintro _ rest n ⟨⟩ hend hn
  obtain ⟨k, rfl⟩ := exists_fuel 1 hn
  cases value with
  | bool b => cases b <;> rfl
  | _ => rfl

theorem column (name : String) (p : Nat) : Completes s .primary [⟨.column name, p⟩] [.column p name] := by
  rintro _ rest n ⟨⟩ hend hn
  obtain ⟨k, rfl⟩ := exists_fuel 1 hn
  rfl

theorem word (name : String) (p : Nat) : Completes s .primary [⟨.word name, p⟩] [.column p name] := by
  rintro _ rest n ⟨⟩ hend hn
  obtain ⟨k, rfl⟩ := exists_fuel 1 hn
  have hopen : (peek rest).kind.isMark .openParen = false := isMark_of_rank_lt (Nat.lt_succ_of_le hend)
  change (if (peek rest).kind.isMark .openParen then _ else _) = _
  simp only [hopen]
  rfl

theorem star (p : Nat) : Completes s .primary [⟨.mark .star, p⟩] [.star p] := by
  rintro _ rest n ⟨⟩ hend hn
  obtain ⟨k, rfl⟩ := exists_fuel 1 hn
  rfl

theorem call (h : Completes s .args ts es) (name : String) (p q r : Nat) :
    Completes s .primary (⟨.word name, p⟩ :: ⟨.mark .openParen, q⟩ :: (ts ++ [⟨.mark .closeParen, r⟩]))
      [.call p name es] := by
  rintro _ rest n ⟨⟩ hend hn
  simp only [List.append_assoc, List.cons_append, List.nil_append, List.length_append, List.length_cons] at hn ⊢
  obtain ⟨k, rfl⟩ := exists_fuel 1 hn
  have hlist : parseArgs s k (ts ++ ⟨.mark .closeParen, r⟩ :: rest) = .ok (es, rest) := h (by simp; omega)
  have hrest : advance (⟨.word name, p⟩ :: ⟨.mark .openParen, q⟩ :: (ts ++ ⟨.mark .closeParen, r⟩ :: rest)) =
      ⟨.mark .openParen, q⟩ :: (ts ++ ⟨.mark .closeParen, r⟩ :: rest) := rfl
  simp only [parsePrimary, peek_cons, hrest, isMark_self, if_true, advance_mark, hlist, ok_bind]
  rfl

theorem paren (h : Completes s .or ts [e]) (p q : Nat) :
    Completes s .primary (⟨.mark .openParen, p⟩ :: (ts ++ [⟨.mark .closeParen, q⟩])) [e] := by
  rintro _ rest n ⟨⟩ hend hn
  simp only [List.append_assoc, List.cons_append, List.nil_append, List.length_append, List.length_cons] at hn ⊢
  obtain ⟨k, rfl⟩ := exists_fuel 1 hn
  have hinner : parseOr s k (ts ++ ⟨.mark .closeParen, q⟩ :: rest) = .ok (e, ⟨.mark .closeParen, q⟩ :: rest) :=
    h.or_all (Nat.le_refl _) (by simp; omega)
  simp only [parsePrimary, peek_cons, advance_mark, hinner, ok_bind, expectMark_cons]

theorem total (h : Completes s .or ts [e]) (p q : Nat) :
    Completes s .primary (⟨.mark .openTotal, p⟩ :: (ts ++ [⟨.mark .closeTotal, q⟩])) [.total p e] := by
  rintro _ rest n ⟨⟩ hend hn
  simp only [List.append_assoc, List.cons_append, List.nil_append, List.length_append, List.length_cons] at hn ⊢
  obtain ⟨k, rfl⟩ := exists_fuel 1 hn
  have hinner : parseOr s k (ts ++ ⟨.mark .closeTotal, q⟩ :: rest) = .ok (e, ⟨.mark .closeTotal, q⟩ :: rest) :=
    h.or_all (Nat.le_refl _) (by simp; omega)
  simp only [parsePrimary, peek_cons, advance_mark, hinner, ok_bind, expectMark_cons]
  rfl

theorem itemsLast (h : Completes s .or ts [e]) : Completes s .items ts [e] := by
  intro rest n q hn
  obtain ⟨k, rfl⟩ := exists_fuel 1 hn
  rw [parseItems, h.or_all (Nat.le_refl _) (by omega)]
  rfl

theorem itemsComma (h : Completes s .or ts [e]) (p : Nat) : Completes s .items (ts ++ [⟨.mark .comma, p⟩]) [e] := by
  intro rest n q hn
  obtain ⟨k, rfl⟩ := exists_fuel 1 hn
  rw [List.append_assoc] at hn ⊢
  rw [parseItems, h.or_all (Nat.le_refl _) (by omega)]
  rfl

theorem itemsMore (h : Completes s .or ts [e]) (hd : Derives .items us es) (hitems : Completes s .items us es)
    (p : Nat) : Completes s .items (ts ++ ⟨.mark .comma, p⟩ :: us) (e :: es) := by
  intro rest n q hn
  simp only [List.append_assoc, List.cons_append, List.length_append, List.length_cons] at hn ⊢
  obtain ⟨k, rfl⟩ := exists_fuel 1 hn
  have hstart := hd.starts (by simp) (⟨.mark .closeParen, q⟩ :: rest)
  have hclose : (peek (us ++ ⟨.mark .closeParen, q⟩ :: rest)).kind.isMark .closeParen = false := by
    simp_all [Phrase.mayStart]
  have hlist : parseItems s k (us ++ ⟨.mark .closeParen, q⟩ :: rest) = .ok (es, rest) := hitems (by simp; omega)
  rw [parseItems, h.or_all (Nat.le_refl _) (by simp; omega)]
  simp only [ok_bind, peek_cons, isMark_self, if_true, advance_mark, hclose, Bool.false_eq_true, if_false, hlist]

theorem argsNone : Completes s .args [] [] := by
  intro rest n q hn
  obtain ⟨k, rfl⟩ := exists_fuel 1 hn
  rfl

theorem argsSome (hd : Derives .argList ts es) (h : Completes s .argList ts es) : Completes s .args ts es := by
  intro rest n q hn
  obtain ⟨k, rfl⟩ := exists_fuel 1 hn
  have hstart := hd.starts (by simp) (⟨.mark .closeParen, q⟩ :: rest)
  have hclose : (peek (ts ++ ⟨.mark .closeParen, q⟩ :: rest)).kind.isMark .closeParen = false := by
    simp_all [Phrase.mayStart]
  simp only [parseArgs, hclose, Bool.false_eq_true, if_false]
  exact h (by omega)

theorem argsLast (h : Completes s .or ts [e]) : Completes s .argList ts [e] := by
  intro rest n q hn
  obtain ⟨k, rfl⟩ := exists_fuel 1 hn
  rw [parseArgsRest, h.or_all (Nat.le_refl _) (by omega)]
  rfl

theorem argsMore (h : Completes s .or ts [e]) (hargs : Completes s .argList us es) (p : Nat) :
    Completes s .argList (ts ++ ⟨.mark .comma, p⟩ :: us) (e :: es) := by
  intro rest n q hn
  simp only [List.append_assoc, List.cons_append, List.length_append, List.length_cons] at hn ⊢
  obtain ⟨k, rfl⟩ := exists_fuel 1 hn
  have hlist : parseArgsRest s k (us ++ ⟨.mark .closeParen, q⟩ :: rest) = .ok (es, rest) := hargs (by simp; omega)
  rw [parseArgsRest, h.or_all (Nat.le_refl _) (by simp; omega)]
  simp only [ok_bind, peek_cons, isMark_self, if_true, advance_mark, hlist]

end Completes

theorem Derives.completes {p : Phrase} {ts : List Token} {es : List Tree} (s : Diagnostic) (h : Derives p ts es) :
    Completes s p ts es := by
  induction h with
  | orOne _ ih => exact ih.orOne
  | orMore p _ _ ihl ihr => exact ihl.orMore ihr p
  | andNot p _ ih => exact ih.andNot p
  | andOne hd ih => exact .andOne hd ih
  | andMore p hd _ ihl ihr => exact .andMore hd ihl ihr p
  | predicateOne _ ih => exact ih.predicateOne
  | compare op p _ _ ihl ihr => exact ihl.compare ihr op p
  | inList p q r _ hneg _ ih ihs => exact ih.inList hneg ihs p q r
  | like ignoreCase p _ hneg _ ihl ihr => exact ihl.like hneg ihr ignoreCase p
  | between p q _ _ _ ih ihlow ihhigh => exact ih.between ihlow ihhigh p q
  | isNull p q _ hneg ih => exact ih.isNull hneg p q
  | isRange offset units p q r _ ih => exact ih.isRange offset units p q r
  | sumOne _ ih => exact ih.sumOne
  | sumMore p hop _ _ ihl ihr => exact ihl.sumMore ihr hop p
  | productOne _ ih => exact ih.productOne
  | productMore p hop _ _ ihl ihr => exact ihl.productMore ihr hop p
  | unaryOne hd ih => exact .unaryOne hd ih
  | unaryNeg p _ ih => exact ih.unaryNeg p
  | constant value p => exact .constant value p
  | column name p => exact .column name p
  | word name p => exact .word name p
  | star p => exact .star p
  | call name p q r _ ih => exact ih.call name p q r
  | paren p q _ ih => exact ih.paren p q
  | total p q _ ih => exact ih.total p q
  | itemsLast _ ih => exact ih.itemsLast
  | itemsComma p _ ih => exact ih.itemsComma p
  | itemsMore p _ hd ih ihs => exact ih.itemsMore hd ihs p
  | argsNone => exact .argsNone
  | argsSome hd ih => exact .argsSome hd ih
  | argsLast _ ih => exact ih.argsLast
  | argsMore p _ _ ih ihs => exact ih.argsMore ihs p

theorem parseTokens_of_derives {ts : List Token} {e : Tree} (h : Derives .or ts [e]) (p : Nat) :
    parseTokens (ts ++ [⟨.eof, p⟩]) = .ok e := by
  have hne : ts ≠ [] := h.ne_nil (by simp)
  have hfirst : (peek (ts ++ [⟨.eof, p⟩])).kind.isEof = false := by
    cases ts with
    | nil => exact absurd rfl hne
    | cons t ts => exact h.eof_notMem t (by simp)
  have hread : parseOr (.placed .empty 0) (fuelFor (ts ++ [⟨.eof, p⟩])) (ts ++ [⟨.eof, p⟩]) = .ok (e, [⟨.eof, p⟩]) :=
    (h.completes _).or_all (Nat.le_refl _) (by simp [fuelFor]; omega)
  simp only [parseTokens, hfirst, hread]
  rfl

theorem eq_of_append_eof {ts used rest : List Token} {t : Token} (hts : ∀ u ∈ ts, u.kind.isEof = false)
    (hused : ∀ u ∈ used, u.kind.isEof = false) (hrest : (peek rest).kind.isEof = true) (ht : t.kind.isEof = true)
    (h : ts ++ [t] = used ++ rest) : used = ts := by
  rcases List.append_eq_append_iff.mp h with ⟨as, rfl, has⟩ | ⟨bs, rfl, rfl⟩
  · cases as with
    | nil => simp
    | cons a as =>
      have ha : a = t := by simp_all
      have hfalse := hused a (by simp)
      rw [ha, ht] at hfalse
      exact nomatch hfalse
  · cases bs with
    | nil => simp
    | cons b bs =>
      have hfalse := hts b (by simp)
      rw [List.cons_append] at hrest
      exact nomatch hfalse.symm.trans hrest

theorem derives_of_parseTokens {ts : List Token} (hts : ∀ t ∈ ts, t.kind.isEof = false) {p : Nat} {e : Tree}
    (h : parseTokens (ts ++ [⟨.eof, p⟩]) = .ok e) : Derives .or ts [e] := by
  simp only [parseTokens] at h
  split at h
  · exact nomatch h
  split at h
  · exact nomatch h
  next tree rest hread =>
  split at h
  · next heof =>
    cases h
    obtain ⟨used, hsplit, hd⟩ := (sound _ _).or hread
    rw [← eq_of_append_eof hts hd.eof_notMem heof rfl hsplit]
    exact hd
  · exact nomatch h

theorem derives_of_parse {text : String} {tree : Tree} (h : Tree.parse text = .ok tree) :
    ∃ ts p, scan text = .ok (ts ++ [⟨.eof, p⟩]) ∧ Derives .or ts [tree] := by
  unfold Tree.parse at h
  split at h
  · cases h
  · next ts hscan =>
    obtain ⟨us, p, rfl, hlexes⟩ := lexes_of_scan hscan
    have heof : ∀ t ∈ us, t.kind.isEof = false := fun t ht => hlexes.isEof_eq_false t.kind (List.mem_map_of_mem ht)
    exact ⟨us, p, hscan, derives_of_parseTokens heof h⟩

/-- A list of tokens is read as a tree exactly if it derives the tree, it derives at most one, and
reading any list with an end gives an answer that neither more fuel nor the report of its want can change. -/
theorem parseTokens_eq_ok_iff_derives (ts : List Token) (p : Nat) (hts : ∀ t ∈ ts, t.kind.isEof = false) :
    (∀ e, parseTokens (ts ++ [⟨.eof, p⟩]) = .ok e ↔ Derives .or ts [e]) ∧
    (∀ e e', Derives .or ts [e] → Derives .or ts [e'] → e = e') ∧
    (∀ us : List Token, (∃ t ∈ us, t.kind.isEof = true) →
      ∃ answer, ∀ (stop : Diagnostic) (fuel : Nat), fuelFor us ≤ fuel → parseOr stop fuel us = answer) := by
  refine ⟨fun e => ⟨derives_of_parseTokens hts, fun h => parseTokens_of_derives h p⟩, ?_, fun us _ => parseOr_settled us⟩
  intro e e' he he'
  have h := (parseTokens_of_derives he p).symm.trans (parseTokens_of_derives he' p)
  injection h

/-- `not a and b between 1 and 2 or c not in (3, )`: NOT takes the AND after BETWEEN's own, and the
comma before the parenthesis is allowed. -/
theorem derives_not_between_in_list :
    let ts : List Token :=
      [⟨.keyword .not, 0⟩, ⟨.word "a", 4⟩, ⟨.keyword .and, 6⟩, ⟨.word "b", 10⟩, ⟨.keyword .between, 12⟩, ⟨.int 1, 20⟩,
        ⟨.keyword .and, 22⟩, ⟨.int 2, 26⟩, ⟨.keyword .or, 28⟩, ⟨.word "c", 31⟩, ⟨.keyword .not, 33⟩,
        ⟨.keyword .in, 37⟩, ⟨.mark .openParen, 40⟩, ⟨.int 3, 41⟩, ⟨.mark .comma, 42⟩, ⟨.mark .closeParen, 44⟩]
    (∀ t ∈ ts, t.kind.isEof = false) ∧
      Derives .or ts
        [.or 0 (.not 0 (.and 4 (.column 4 "a") (.between 10 (.column 10 "b") (.constant 20 (.int 1)) (.constant 26 (.int 2)))))
          (.inList 31 (.column 31 "c") [.constant 41 (.int 3)] true)] :=
  ⟨by decide, ((parseTokens_eq_ok_iff_derives _ 45 (by decide)).1 _).mp rfl⟩

end ShelfQuery.Expression
