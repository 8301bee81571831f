import ShelfQuery.Proofs.Data.Except
import ShelfQuery.Proofs.Parser.Grammar

set_option autoImplicit false

/-!
# What is read is in the grammar

One lemma for each reader assumes of the readers it calls, with one less fuel, that they take phrases of the grammar;
`sound` is the induction on the fuel that joins them.
-/

namespace ShelfQuery.Expression

variable {ts us : List Token} {kind : TokenKind} {k : Keyword} {m : Mark}

theorem peek_eq (h : (peek ts).kind = kind)
    (hk : kind.isEof = false) : ∃ p us, ts = ⟨kind, p⟩ :: us ∧ advance ts = us := by
  subst h
  cases ts with
  | nil => cases hk
  | cons t us =>
    have ht : t.kind.isEof = false := hk
    exact ⟨t.pos, us, rfl, by simp [advance, ht]⟩

theorem isKeyword_eq (h : kind.isKeyword k = true) : kind = .keyword k := by
  cases kind <;> simp_all [TokenKind.isKeyword]

theorem isMark_eq (h : kind.isMark m = true) : kind = .mark m := by
  cases kind <;> simp_all [TokenKind.isMark]

theorem peek_keyword (h : (peek ts).kind.isKeyword k = true) : ∃ p us, ts = ⟨.keyword k, p⟩ :: us ∧ advance ts = us :=
  peek_eq (isKeyword_eq h) rfl

theorem peek_mark (h : (peek ts).kind.isMark m = true) : ∃ p us, ts = ⟨.mark m, p⟩ :: us ∧ advance ts = us :=
  peek_eq (isMark_eq h) rfl

theorem expectMark_ok (h : expectMark m ts = .ok us) : ∃ p, ts = ⟨.mark m, p⟩ :: us := by
  simp only [expectMark, expect] at h
  split at h
  · next hm =>
    obtain ⟨p, vs, rfl, hv⟩ := peek_mark hm
    exact ⟨p, by simpa [hv] using h⟩
  · cases h

theorem expectKeyword_ok (h : expectKeyword k ts = .ok us) : ∃ p, ts = ⟨.keyword k, p⟩ :: us := by
  simp only [expectKeyword, expect] at h
  split at h
  · next hk =>
    obtain ⟨p, vs, rfl, hv⟩ := peek_keyword hk
    exact ⟨p, by simpa [hv] using h⟩
  · cases h

theorem comparisonOf?_eq {op : Comparison} (h : comparisonOf? kind = some op) : kind = .mark op.mark := by
  unfold comparisonOf? at h
  split at h <;> simp_all <;> subst h <;> rfl

theorem sumOf?_eq {op : Arith} (h : sumOf? kind = some op) : kind = .mark op.mark ∧ (op = .add ∨ op = .sub) := by
  unfold sumOf? at h
  split at h <;> simp_all <;> subst h <;> rfl

theorem productOf?_eq {op : Arith} (h : productOf? kind = some op) :
    kind = .mark op.mark ∧ (op = .mul ∨ op = .div) := by
  unfold productOf? at h
  split at h <;> simp_all <;> subst h <;> rfl

def Reads (p : Phrase) (read : List Token → Except Diagnostic (Tree × List Token)) : Prop :=
  ∀ ⦃ts e rest⦄, read ts = .ok (e, rest) → ∃ used, ts = used ++ rest ∧ Derives p used [e]

/-- The tokens taken make a phrase of kind `q` out of the phrase of kind `p` before them. -/
def Extends (p q : Phrase) (read : Tree → List Token → Except Diagnostic (Tree × List Token)) : Prop :=
  ∀ ⦃l ts e rest us⦄, read l ts = .ok (e, rest) → Derives p us [l] →
    ∃ used, ts = used ++ rest ∧ Derives q (us ++ used) [e]

/-- The tokens taken are a list and the parenthesis that closes it. -/
def ReadsList (p : Phrase) (read : List Token → Except Diagnostic (List Tree × List Token)) : Prop :=
  ∀ ⦃ts es rest⦄, read ts = .ok (es, rest) →
    ∃ used r, ts = used ++ ⟨.mark .closeParen, r⟩ :: rest ∧ Derives p used es

/-- As `Extends`, after an optional NOT that only stands before IN, LIKE and ILIKE. -/
def ReadsOperator (read : Tree → Bool → List Token → Except Diagnostic (Tree × List Token)) : Prop :=
  ∀ ⦃l negated ts e rest us ns⦄, read l negated ts = .ok (e, rest) → Derives .sum us [l] →
    Negation ns negated →
    (negated = true → ∃ k, (peek ts).kind = .keyword k ∧ (k = .in ∨ k = .like ∨ k = .ilike)) →
    ∃ used, ts = used ++ rest ∧ Derives .predicate (us ++ (ns ++ used)) [e]

section

variable {stop : Diagnostic} {n : Nat}

theorem reads_of_extends {p q r : Phrase} {first : List Token → Except Diagnostic (Tree × List Token)}
    {loop : Tree → List Token → Except Diagnostic (Tree × List Token)} (hfirst : Reads p first)
    (hone : ∀ {ts e}, Derives p ts [e] → Derives q ts [e]) (hloop : Extends q r loop) :
    Reads r fun ts => first ts >>= fun x => loop x.1 x.2 := by
  intro ts e rest h
  obtain ⟨⟨l, ts₁⟩, h₁, h₂⟩ := bind_ok h
  obtain ⟨us, rfl, hl⟩ := hfirst h₁
  obtain ⟨vs, rfl, he⟩ := hloop h₂ (hone hl)
  exact ⟨us ++ vs, by simp, he⟩

theorem parseOr_reads (hand : Reads .and (parseAnd stop n)) (hrest : Extends .or .or (parseOrRest stop n)) :
    Reads .or (parseOr stop (n + 1)) :=
  reads_of_extends hand .orOne hrest

theorem parseOrRest_extends (hand : Reads .and (parseAnd stop n))
    (hrest : Extends .or .or (parseOrRest stop n)) : Extends .or .or (parseOrRest stop (n + 1)) := by
  intro l ts e rest us h hl
  simp only [parseOrRest] at h
  split at h
  · next hor =>
    obtain ⟨p, vs, rfl, hv⟩ := peek_keyword hor
    rw [hv] at h
    obtain ⟨⟨r, ts₁⟩, h₁, h₂⟩ := bind_ok h
    obtain ⟨ws, rfl, hr⟩ := hand h₁
    obtain ⟨xs, rfl, he⟩ := hrest h₂ (.orMore p hl hr)
    exact ⟨⟨.keyword .or, p⟩ :: ws ++ xs, by simp, by simpa using he⟩
  · cases h
    exact ⟨[], by simp, by simpa using hl⟩

theorem parseAnd_reads (hand : Reads .and (parseAnd stop n)) (hpred : Reads .predicate (parsePredicate stop n)) :
    Reads .and (parseAnd stop (n + 1)) := by
  intro ts e rest h
  simp only [parseAnd] at h
  split at h
  · next hnot =>
    obtain ⟨p, vs, rfl, hv⟩ := peek_keyword hnot
    rw [hv] at h
    obtain ⟨⟨a, ts₁⟩, h₁, h₂⟩ := bind_ok h
    obtain ⟨ws, rfl, ha⟩ := hand h₁
    cases h₂
    exact ⟨⟨.keyword .not, p⟩ :: ws, by simp, .andNot p ha⟩
  · obtain ⟨⟨l, ts₁⟩, h₁, h₂⟩ := bind_ok h
    obtain ⟨ws, rfl, hl⟩ := hpred h₁
    dsimp only at h₂
    split at h₂
    · next hand' =>
      obtain ⟨p, vs, rfl, hv⟩ := peek_keyword hand'
      rw [hv] at h₂
      obtain ⟨⟨r, ts₂⟩, h₃, h₄⟩ := bind_ok h₂
      obtain ⟨xs, rfl, hr⟩ := hand h₃
      cases h₄
      exact ⟨ws ++ ⟨.keyword .and, p⟩ :: xs, by simp, .andMore p hl hr⟩
    · cases h₂
      exact ⟨ws, rfl, .andOne hl⟩

theorem parsePredicate_reads (hsum : Reads .sum (parseSum stop n))
    (hrest : Extends .sum .predicate (parsePredicateRest stop n)) :
    Reads .predicate (parsePredicate stop (n + 1)) :=
  reads_of_extends hsum id hrest

theorem negates_eq (h : negates ts = true) : ∃ p us, ts = ⟨.keyword .not, p⟩ :: us ∧
    advance ts = us ∧ ∃ k, (peek us).kind = .keyword k ∧ (k = .in ∨ k = .like ∨ k = .ilike) := by
  simp only [negates, Bool.and_eq_true, Bool.or_eq_true] at h
  obtain ⟨hnot, hnext⟩ := h
  obtain ⟨p, us, rfl, hu⟩ := peek_keyword hnot
  rw [hu] at hnext
  refine ⟨p, us, rfl, hu, ?_⟩
  rcases hnext with (hk | hk) | hk
  · exact ⟨.in, isKeyword_eq hk, .inl rfl⟩
  · exact ⟨.like, isKeyword_eq hk, .inr (.inl rfl)⟩
  · exact ⟨.ilike, isKeyword_eq hk, .inr (.inr rfl)⟩

theorem parsePredicateRest_extends (hsum : Reads .sum (parseSum stop n))
    (hop : ReadsOperator (parseOperator stop n)) : Extends .sum .predicate (parsePredicateRest stop (n + 1)) := by
  intro l ts e rest us h hl
  simp only [parsePredicateRest] at h
  split at h
  · next op hcmp =>
    obtain ⟨p, vs, rfl, hv⟩ := peek_eq (comparisonOf?_eq hcmp) rfl
    rw [hv] at h
    obtain ⟨⟨r, ts₁⟩, h₁, h₂⟩ := bind_ok h
    obtain ⟨ws, rfl, hr⟩ := hsum h₁
    cases h₂
    exact ⟨⟨.mark op.mark, p⟩ :: ws, by simp, .compare op p hl hr⟩
  · split at h
    · next hneg =>
      obtain ⟨p, vs, rfl, hv, hk⟩ := negates_eq hneg
      rw [hv] at h
      obtain ⟨ws, rfl, he⟩ := hop h hl (.present p) fun _ => hk
      exact ⟨⟨.keyword .not, p⟩ :: ws, by simp, he⟩
    · exact hop h hl .absent fun hneg => by cases hneg

theorem parseIs_reads {l e : Tree} {ts rest us : List Token} {p : Nat} (h : parseIs l ts = .ok (e, rest))
    (hl : Derives .sum us [l]) :
    ∃ used, ts = used ++ rest ∧ Derives .predicate (us ++ ⟨.keyword .is, p⟩ :: used) [e] := by
  simp only [parseIs] at h
  by_cases hnot : (peek ts).kind.isKeyword .not = true
  · obtain ⟨q, vs, rfl, hv⟩ := peek_keyword hnot
    simp only [hnot, ↓reduceIte, hv] at h
    split at h
    · next hnull =>
      obtain ⟨r, ws, rfl, hw⟩ := peek_keyword hnull
      cases h
      exact ⟨[⟨.keyword .not, q⟩, ⟨.keyword .null, r⟩], by simp [hw], .isNull p r hl (.present q)⟩
    · cases h
  · simp only [hnot, Bool.false_eq_true, ↓reduceIte] at h
    split at h
    · next hnull =>
      obtain ⟨r, ws, rfl, hw⟩ := peek_keyword hnull
      cases h
      exact ⟨[⟨.keyword .null, r⟩], by simp [hw], .isNull p r hl .absent⟩
    · split at h
      · next offset units _ hoffset hunits =>
        obtain ⟨q, vs, rfl, hv⟩ := peek_eq hoffset rfl
        rw [hv] at h hunits
        obtain ⟨r, ws, rfl, hw⟩ := peek_eq hunits rfl
        cases h
        exact ⟨[⟨.word offset, q⟩, ⟨.word units, r⟩], by simp [hw], .isRange offset units p q r hl⟩
      · cases h

theorem parseOperator_reads (hsum : Reads .sum (parseSum stop n)) (hitems : ReadsList .items (parseItems stop n)) :
    ReadsOperator (parseOperator stop (n + 1)) := by
  intro l negated ts e rest us ns h hl hns hneg
  -- after NOT only IN, LIKE and ILIKE are left
  have hfalse : ∀ {kind}, (peek ts).kind = kind → kind ≠ .keyword .in → kind ≠ .keyword .like →
      kind ≠ .keyword .ilike → negated = false ∧ ns = [] := by
    intro kind hkind hin hlike hilike
    cases hns with
    | absent => exact ⟨rfl, rfl⟩
    | present p =>
      obtain ⟨k, hk, rfl | rfl | rfl⟩ := hneg rfl <;> simp_all
  simp only [parseOperator] at h
  split at h
  · next hin =>
    obtain ⟨p, vs, rfl, hv⟩ := peek_eq hin rfl
    rw [hv] at h
    obtain ⟨ws, h₁, h₂⟩ := bind_ok h
    obtain ⟨q, rfl⟩ := expectMark_ok h₁
    obtain ⟨⟨es, ts₁⟩, h₃, h₄⟩ := bind_ok h₂
    obtain ⟨xs, r, rfl, hes⟩ := hitems h₃
    cases h₄
    exact ⟨⟨.keyword .in, p⟩ :: ⟨.mark .openParen, q⟩ :: (xs ++ [⟨.mark .closeParen, r⟩]), by simp,
      .inList p q r hl hns hes⟩
  · next hlike =>
    obtain ⟨p, vs, rfl, hv⟩ := peek_eq hlike rfl
    rw [hv] at h
    obtain ⟨⟨r, ts₁⟩, h₁, h₂⟩ := bind_ok h
    obtain ⟨xs, rfl, hr⟩ := hsum h₁
    cases h₂
    exact ⟨⟨.keyword .like, p⟩ :: xs, by simp, .like false p hl hns hr⟩
  · next hilike =>
    obtain ⟨p, vs, rfl, hv⟩ := peek_eq hilike rfl
    rw [hv] at h
    obtain ⟨⟨r, ts₁⟩, h₁, h₂⟩ := bind_ok h
    obtain ⟨xs, rfl, hr⟩ := hsum h₁
    cases h₂
    exact ⟨⟨.keyword .ilike, p⟩ :: xs, by simp, .like true p hl hns hr⟩
  · next hbetween =>
    obtain ⟨rfl, rfl⟩ := hfalse hbetween (by simp) (by simp) (by simp)
    obtain ⟨p, vs, rfl, hv⟩ := peek_eq hbetween rfl
    rw [hv] at h
    obtain ⟨⟨low, ts₁⟩, h₁, h₂⟩ := bind_ok h
    obtain ⟨xs, rfl, hlow⟩ := hsum h₁
    obtain ⟨ws, h₃, h₄⟩ := bind_ok h₂
    obtain ⟨q, rfl⟩ := expectKeyword_ok h₃
    obtain ⟨⟨high, ts₂⟩, h₅, h₆⟩ := bind_ok h₄
    obtain ⟨ys, rfl, hhigh⟩ := hsum h₅
    cases h₆
    exact ⟨⟨.keyword .between, p⟩ :: (xs ++ ⟨.keyword .and, q⟩ :: ys), by simp, .between p q hl hlow hhigh⟩
  · next his =>
    obtain ⟨rfl, rfl⟩ := hfalse his (by simp) (by simp) (by simp)
    obtain ⟨p, vs, rfl, hv⟩ := peek_eq his rfl
    rw [hv] at h
    obtain ⟨xs, rfl, he⟩ := parseIs_reads (p := p) h hl
    exact ⟨⟨.keyword .is, p⟩ :: xs, by simp, he⟩
  · next hin hlike hilike _ _ =>
    obtain ⟨rfl, rfl⟩ := hfalse rfl hin hlike hilike
    cases h
    exact ⟨[], by simp, by simpa using .predicateOne hl⟩

theorem parseItems_reads (hor : Reads .or (parseOr stop n)) (hitems : ReadsList .items (parseItems stop n)) :
    ReadsList .items (parseItems stop (n + 1)) := by
  intro ts es rest h
  simp only [parseItems] at h
  obtain ⟨⟨e, ts₁⟩, h₁, h₂⟩ := bind_ok h
  obtain ⟨us, rfl, he⟩ := hor h₁
  dsimp only at h₂
  split at h₂
  · next hcomma =>
    obtain ⟨p, vs, rfl, hv⟩ := peek_mark hcomma
    rw [hv] at h₂
    split at h₂
    · next hclose =>
      obtain ⟨q, ws, rfl, hw⟩ := peek_mark hclose
      cases h₂
      exact ⟨us ++ [⟨.mark .comma, p⟩], q, by simp [hw], .itemsComma p he⟩
    · obtain ⟨⟨es', ts₂⟩, h₃, h₄⟩ := bind_ok h₂
      obtain ⟨ws, r, rfl, hes⟩ := hitems h₃
      cases h₄
      exact ⟨us ++ ⟨.mark .comma, p⟩ :: ws, r, by simp, .itemsMore p he hes⟩
  · obtain ⟨vs, h₃, h₄⟩ := bind_ok h₂
    obtain ⟨q, rfl⟩ := expectMark_ok h₃
    cases h₄
    exact ⟨us, q, rfl, .itemsLast he⟩

theorem parseSum_reads (hproduct : Reads .product (parseProduct stop n))
    (hrest : Extends .sum .sum (parseSumRest stop n)) : Reads .sum (parseSum stop (n + 1)) :=
  reads_of_extends hproduct .sumOne hrest

theorem parseSumRest_extends (hproduct : Reads .product (parseProduct stop n))
    (hrest : Extends .sum .sum (parseSumRest stop n)) : Extends .sum .sum (parseSumRest stop (n + 1)) := by
  intro l ts e rest us h hl
  simp only [parseSumRest] at h
  split at h
  · next op hop =>
    obtain ⟨hkind, hcase⟩ := sumOf?_eq hop
    obtain ⟨p, vs, rfl, hv⟩ := peek_eq hkind rfl
    rw [hv] at h
    obtain ⟨⟨r, ts₁⟩, h₁, h₂⟩ := bind_ok h
    obtain ⟨ws, rfl, hr⟩ := hproduct h₁
    obtain ⟨xs, rfl, he⟩ := hrest h₂ (.sumMore p hcase hl hr)
    exact ⟨⟨.mark op.mark, p⟩ :: ws ++ xs, by simp, by simpa using he⟩
  · cases h
    exact ⟨[], by simp, by simpa using hl⟩

theorem parseProduct_reads (hunary : Reads .unary (parseUnary stop n))
    (hrest : Extends .product .product (parseProductRest stop n)) : Reads .product (parseProduct stop (n + 1)) :=
  reads_of_extends hunary .productOne hrest

theorem parseProductRest_extends (hunary : Reads .unary (parseUnary stop n))
    (hrest : Extends .product .product (parseProductRest stop n)) :
    Extends .product .product (parseProductRest stop (n + 1)) := by
  intro l ts e rest us h hl
  simp only [parseProductRest] at h
  split at h
  · next op hop =>
    obtain ⟨hkind, hcase⟩ := productOf?_eq hop
    obtain ⟨p, vs, rfl, hv⟩ := peek_eq hkind rfl
    rw [hv] at h
    obtain ⟨⟨r, ts₁⟩, h₁, h₂⟩ := bind_ok h
    obtain ⟨ws, rfl, hr⟩ := hunary h₁
    obtain ⟨xs, rfl, he⟩ := hrest h₂ (.productMore p hcase hl hr)
    exact ⟨⟨.mark op.mark, p⟩ :: ws ++ xs, by simp, by simpa using he⟩
  · cases h
    exact ⟨[], by simp, by simpa using hl⟩

theorem parseUnary_reads (hunary : Reads .unary (parseUnary stop n)) (hprimary : Reads .primary (parsePrimary stop n)) :
    Reads .unary (parseUnary stop (n + 1)) := by
  intro ts e rest h
  simp only [parseUnary] at h
  split at h
  · next hminus =>
    obtain ⟨p, vs, rfl, hv⟩ := peek_mark hminus
    rw [hv] at h
    obtain ⟨⟨a, ts₁⟩, h₁, h₂⟩ := bind_ok h
    obtain ⟨ws, rfl, ha⟩ := hunary h₁
    cases h₂
    exact ⟨⟨.mark .minus, p⟩ :: ws, by simp, .unaryNeg p ha⟩
  · obtain ⟨ws, rfl, he⟩ := hprimary h
    exact ⟨ws, rfl, .unaryOne he⟩

theorem parsePrimary_reads (hor : Reads .or (parseOr stop n)) (hargs : ReadsList .args (parseArgs stop n)) :
    Reads .primary (parsePrimary stop (n + 1)) := by
  intro ts e rest h
  simp only [parsePrimary] at h
  have constant : ∀ (c : Constant), (peek ts).kind = c.token →
      (Except.ok (Tree.constant (peek ts).pos c, advance ts) : Except Diagnostic _) = .ok (e, rest) →
      ∃ used, ts = used ++ rest ∧ Derives .primary used [e] := by
    intro c hc he
    have hk : c.token.isEof = false := by
      cases c with
      | bool b => cases b <;> rfl
      | _ => rfl
    obtain ⟨p, us, rfl, hu⟩ := peek_eq hc hk
    rw [hu] at he
    cases he
    exact ⟨[⟨c.token, p⟩], rfl, .constant c p⟩
  split at h
  · next k hk => exact constant (.int k) hk h
  · next x hx => exact constant (.float x) hx h
  · next s hs => exact constant (.text s) hs h
  · next hk => exact constant (.bool true) hk h
  · next hk => exact constant (.bool false) hk h
  · next hk => exact constant .null hk h
  · next name hk =>
    obtain ⟨p, us, rfl, hu⟩ := peek_eq hk rfl
    rw [hu] at h
    cases h
    exact ⟨[⟨.column name, p⟩], rfl, .column name p⟩
  · next hk =>
    obtain ⟨p, us, rfl, hu⟩ := peek_eq hk rfl
    rw [hu] at h
    cases h
    exact ⟨[⟨.mark .star, p⟩], rfl, .star p⟩
  · next name hk =>
    obtain ⟨p, us, rfl, hu⟩ := peek_eq hk rfl
    rw [hu] at h
    split at h
    · next hopen =>
      obtain ⟨q, vs, rfl, hv⟩ := peek_mark hopen
      rw [hv] at h
      obtain ⟨⟨es, ts₁⟩, h₁, h₂⟩ := bind_ok h
      obtain ⟨ws, r, rfl, hes⟩ := hargs h₁
      cases h₂
      exact ⟨⟨.word name, p⟩ :: ⟨.mark .openParen, q⟩ :: (ws ++ [⟨.mark .closeParen, r⟩]), by simp,
        .call name p q r hes⟩
    · cases h
      exact ⟨[⟨.word name, p⟩], rfl, .word name p⟩
  · next hk =>
    obtain ⟨p, us, rfl, hu⟩ := peek_eq hk rfl
    rw [hu] at h
    obtain ⟨⟨a, ts₁⟩, h₁, h₂⟩ := bind_ok h
    obtain ⟨ws, rfl, ha⟩ := hor h₁
    obtain ⟨vs, h₃, h₄⟩ := bind_ok h₂
    obtain ⟨q, rfl⟩ := expectMark_ok h₃
    cases h₄
    exact ⟨⟨.mark .openParen, p⟩ :: (ws ++ [⟨.mark .closeParen, q⟩]), by simp, .paren p q ha⟩
  · next hk =>
    obtain ⟨p, us, rfl, hu⟩ := peek_eq hk rfl
    rw [hu] at h
    obtain ⟨⟨a, ts₁⟩, h₁, h₂⟩ := bind_ok h
    obtain ⟨ws, rfl, ha⟩ := hor h₁
    obtain ⟨vs, h₃, h₄⟩ := bind_ok h₂
    obtain ⟨q, rfl⟩ := expectMark_ok h₃
    cases h₄
    exact ⟨⟨.mark .openTotal, p⟩ :: (ws ++ [⟨.mark .closeTotal, q⟩]), by simp, .total p q ha⟩
  · cases h
  · cases h

theorem parseArgs_reads (hrest : ReadsList .argList (parseArgsRest stop n)) :
    ReadsList .args (parseArgs stop (n + 1)) := by
  intro ts es rest h
  simp only [parseArgs] at h
  split at h
  · next hclose =>
    obtain ⟨p, us, rfl, hu⟩ := peek_mark hclose
    rw [hu] at h
    cases h
    exact ⟨[], p, rfl, .argsNone⟩
  · obtain ⟨us, r, rfl, hes⟩ := hrest h
    exact ⟨us, r, rfl, .argsSome hes⟩

theorem parseArgsRest_reads (hor : Reads .or (parseOr stop n)) (hrest : ReadsList .argList (parseArgsRest stop n)) :
    ReadsList .argList (parseArgsRest stop (n + 1)) := by
  intro ts es rest h
  simp only [parseArgsRest] at h
  obtain ⟨⟨e, ts₁⟩, h₁, h₂⟩ := bind_ok h
  obtain ⟨us, rfl, he⟩ := hor h₁
  dsimp only at h₂
  split at h₂
  · next hcomma =>
    obtain ⟨p, vs, rfl, hv⟩ := peek_mark hcomma
    rw [hv] at h₂
    obtain ⟨⟨es', ts₂⟩, h₃, h₄⟩ := bind_ok h₂
    obtain ⟨ws, r, rfl, hes⟩ := hrest h₃
    cases h₄
    exact ⟨us ++ ⟨.mark .comma, p⟩ :: ws, r, by simp, .argsMore p he hes⟩
  · obtain ⟨vs, h₃, h₄⟩ := bind_ok h₂
    obtain ⟨q, rfl⟩ := expectMark_ok h₃
    cases h₄
    exact ⟨us, q, rfl, .argsLast he⟩

end

structure Sound (stop : Diagnostic) (n : Nat) : Prop where
  or : Reads .or (parseOr stop n)
  orRest : Extends .or .or (parseOrRest stop n)
  and : Reads .and (parseAnd stop n)
  predicate : Reads .predicate (parsePredicate stop n)
  predicateRest : Extends .sum .predicate (parsePredicateRest stop n)
  operator : ReadsOperator (parseOperator stop n)
  items : ReadsList .items (parseItems stop n)
  sum : Reads .sum (parseSum stop n)
  sumRest : Extends .sum .sum (parseSumRest stop n)
  product : Reads .product (parseProduct stop n)
  productRest : Extends .product .product (parseProductRest stop n)
  unary : Reads .unary (parseUnary stop n)
  primary : Reads .primary (parsePrimary stop n)
  args : ReadsList .args (parseArgs stop n)
  argsRest : ReadsList .argList (parseArgsRest stop n)

theorem sound (stop : Diagnostic) (n : Nat) : Sound stop n := by
  induction n with
  | zero =>
    exact ⟨nofun, nofun, nofun, nofun, nofun, nofun, nofun, nofun, nofun, nofun, nofun, nofun, nofun, nofun, nofun⟩
  | succ n ih =>
    exact {
      or := parseOr_reads ih.and ih.orRest
      orRest := parseOrRest_extends ih.and ih.orRest
      and := parseAnd_reads ih.and ih.predicate
      predicate := parsePredicate_reads ih.sum ih.predicateRest
      predicateRest := parsePredicateRest_extends ih.sum ih.operator
      operator := parseOperator_reads ih.sum ih.items
      items := parseItems_reads ih.or ih.items
      sum := parseSum_reads ih.product ih.sumRest
      sumRest := parseSumRest_extends ih.product ih.sumRest
      product := parseProduct_reads ih.unary ih.productRest
      productRest := parseProductRest_extends ih.unary ih.productRest
      unary := parseUnary_reads ih.unary ih.primary
      primary := parsePrimary_reads ih.or ih.args
      args := parseArgs_reads ih.argsRest
      argsRest := parseArgsRest_reads ih.or ih.argsRest }

end ShelfQuery.Expression
