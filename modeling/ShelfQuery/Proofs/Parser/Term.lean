import ShelfQuery.Proofs.Parser.Completeness

set_option autoImplicit false

namespace ShelfQuery.Expression

inductive Term where
  | reference (name : String)
  | column (name : String)
  | constant (value : Constant)
  | star
  | neg (arg : Term)
  | not (arg : Term)
  | arith (op : Arith) (left right : Term)
  | compare (op : Comparison) (left right : Term)
  | and (left right : Term)
  | or (left right : Term)
  | inList (arg : Term) (items : List Term) (negated : Bool)
  | between (arg low high : Term)
  | like (arg pattern : Term) (ignoreCase negated : Bool)
  | isNull (arg : Term) (negated : Bool)
  | isRange (arg : Term) (offset units : String)
  | call (name : String) (args : List Term)
  | total (arg : Term)

mutual

def Tree.term : Tree → Term
  | .column _ name => .column name
  | .constant _ value => .constant value
  | .star _ => .star
  | .neg _ arg => .neg arg.term
  | .not _ arg => .not arg.term
  | .arith _ op left right => .arith op left.term right.term
  | .compare _ op left right => .compare op left.term right.term
  | .and _ left right => .and left.term right.term
  | .or _ left right => .or left.term right.term
  | .inList _ arg items negated => .inList arg.term (treeTerms items) negated
  | .between _ arg low high => .between arg.term low.term high.term
  | .like _ arg pattern ignoreCase negated => .like arg.term pattern.term ignoreCase negated
  | .isNull _ arg negated => .isNull arg.term negated
  | .isRange _ arg offset units _ => .isRange arg.term offset units
  | .call _ name args => .call name (treeTerms args)
  | .total _ arg => .total arg.term

def treeTerms : List Tree → List Term
  | [] => []
  | tree :: rest => tree.term :: treeTerms rest

end

mutual

/-- Puts a term in the place of each reference. -/
def Term.subst (σ : String → Term) : Term → Term
  | .reference name => σ name
  | .column name => .column name
  | .constant value => .constant value
  | .star => .star
  | .neg arg => .neg (arg.subst σ)
  | .not arg => .not (arg.subst σ)
  | .arith op left right => .arith op (left.subst σ) (right.subst σ)
  | .compare op left right => .compare op (left.subst σ) (right.subst σ)
  | .and left right => .and (left.subst σ) (right.subst σ)
  | .or left right => .or (left.subst σ) (right.subst σ)
  | .inList arg items negated => .inList (arg.subst σ) (substTerms σ items) negated
  | .between arg low high => .between (arg.subst σ) (low.subst σ) (high.subst σ)
  | .like arg pattern ignoreCase negated => .like (arg.subst σ) (pattern.subst σ) ignoreCase negated
  | .isNull arg negated => .isNull (arg.subst σ) negated
  | .isRange arg offset units => .isRange (arg.subst σ) offset units
  | .call name args => .call name (substTerms σ args)
  | .total arg => .total (arg.subst σ)

def substTerms (σ : String → Term) : List Term → List Term
  | [] => []
  | x :: rest => x.subst σ :: substTerms σ rest

end

theorem treeTerms_eq_map (trees : List Tree) : treeTerms trees = trees.map Tree.term := by
  induction trees with
  | nil => rfl
  | cons tree rest ih => rw [treeTerms, ih, List.map_cons]

theorem substTerms_eq_map (σ : String → Term) (xs : List Term) : substTerms σ xs = xs.map (Term.subst σ) := by
  induction xs with
  | nil => rfl
  | cons x rest ih => rw [substTerms, ih, List.map_cons]

def negation (negated : Bool) : List TokenKind := if negated then [.keyword .not] else []

inductive Forms : Phrase → List TokenKind → List Term → Prop where
  | orOne {ks x} : Forms .and ks [x] → Forms .or ks [x]
  | orMore {ks ls x y} : Forms .or ks [x] → Forms .and ls [y] → Forms .or (ks ++ .keyword .or :: ls) [.or x y]
  | andNot {ks x} : Forms .and ks [x] → Forms .and (.keyword .not :: ks) [.not x]
  | andOne {ks x} : Forms .predicate ks [x] → Forms .and ks [x]
  | andMore {ks ls x y} : Forms .predicate ks [x] → Forms .and ls [y] →
      Forms .and (ks ++ .keyword .and :: ls) [.and x y]
  | predicateOne {ks x} : Forms .sum ks [x] → Forms .predicate ks [x]
  | compare {ks ls x y} (op : Comparison) : Forms .sum ks [x] → Forms .sum ls [y] →
      Forms .predicate (ks ++ .mark op.mark :: ls) [.compare op x y]
  | inList {ks ls x xs} (negated : Bool) : Forms .sum ks [x] → Forms .items ls xs →
      Forms .predicate (ks ++ (negation negated ++ .keyword .in :: .mark .openParen :: (ls ++ [.mark .closeParen])))
        [.inList x xs negated]
  | like {ks ls x y} (ignoreCase negated : Bool) : Forms .sum ks [x] → Forms .sum ls [y] →
      Forms .predicate (ks ++ (negation negated ++ .keyword (if ignoreCase then .ilike else .like) :: ls))
        [.like x y ignoreCase negated]
  | between {ks ls ms x low high} : Forms .sum ks [x] → Forms .sum ls [low] → Forms .sum ms [high] →
      Forms .predicate (ks ++ .keyword .between :: (ls ++ .keyword .and :: ms)) [.between x low high]
  | isNull {ks x} (negated : Bool) : Forms .sum ks [x] →
      Forms .predicate (ks ++ .keyword .is :: (negation negated ++ [.keyword .null])) [.isNull x negated]
  | isRange {ks x} (offset units : String) : Forms .sum ks [x] →
      Forms .predicate (ks ++ [.keyword .is, .word offset, .word units]) [.isRange x offset units]
  | sumOne {ks x} : Forms .product ks [x] → Forms .sum ks [x]
  | sumMore {ks ls x y op} : op = .add ∨ op = .sub → Forms .sum ks [x] → Forms .product ls [y] →
      Forms .sum (ks ++ .mark op.mark :: ls) [.arith op x y]
  | productOne {ks x} : Forms .unary ks [x] → Forms .product ks [x]
  | productMore {ks ls x y op} : op = .mul ∨ op = .div → Forms .product ks [x] → Forms .unary ls [y] →
      Forms .product (ks ++ .mark op.mark :: ls) [.arith op x y]
  | unaryOne {ks x} : Forms .primary ks [x] → Forms .unary ks [x]
  | unaryNeg {ks x} : Forms .unary ks [x] → Forms .unary (.mark .minus :: ks) [.neg x]
  | reference (name : String) : Forms .primary [.reference name] [.reference name]
  | constant (value : Constant) : Forms .primary [value.token] [.constant value]
  | column (name : String) : Forms .primary [.column name] [.column name]
  | word (name : String) : Forms .primary [.word name] [.column name]
  | star : Forms .primary [.mark .star] [.star]
  | call {ks xs} (name : String) : Forms .args ks xs →
      Forms .primary (.word name :: .mark .openParen :: (ks ++ [.mark .closeParen])) [.call name xs]
  | paren {ks x} : Forms .or ks [x] → Forms .primary (.mark .openParen :: (ks ++ [.mark .closeParen])) [x]
  | total {ks x} : Forms .or ks [x] → Forms .primary (.mark .openTotal :: (ks ++ [.mark .closeTotal])) [.total x]
  | itemsLast {ks x} : Forms .or ks [x] → Forms .items ks [x]
  | itemsComma {ks x} : Forms .or ks [x] → Forms .items (ks ++ [.mark .comma]) [x]
  | itemsMore {ks ls x xs} : Forms .or ks [x] → Forms .items ls xs → Forms .items (ks ++ .mark .comma :: ls) (x :: xs)
  | argsNone : Forms .args [] []
  | argsSome {ks xs} : Forms .argList ks xs → Forms .args ks xs
  | argsLast {ks x} : Forms .or ks [x] → Forms .argList ks [x]
  | argsMore {ks ls x xs} : Forms .or ks [x] → Forms .argList ls xs →
      Forms .argList (ks ++ .mark .comma :: ls) (x :: xs)

theorem Negation.kinds {ns : List Token} {negated : Bool} (h : Negation ns negated) :
    ns.map Token.kind = negation negated := by
  cases h <;> rfl

theorem Derives.forms {p : Phrase} {ts : List Token} {es : List Tree} (h : Derives p ts es) :
    Forms p (ts.map Token.kind) (es.map Tree.term) := by
  induction h with
  | orOne _ ih => exact .orOne ih
  | orMore _ _ _ ihl ihr => simpa [Tree.term] using Forms.orMore ihl ihr
  | andNot _ _ ih => exact .andNot ih
  | andOne _ ih => exact .andOne ih
  | andMore _ _ _ ihl ihr => simpa [Tree.term] using Forms.andMore ihl ihr
  | predicateOne _ ih => exact .predicateOne ih
  | compare op _ _ _ ihl ihr => simpa [Tree.term] using Forms.compare op ihl ihr
  | inList _ _ _ _ hneg _ ih ihs => simpa [Tree.term, hneg.kinds, treeTerms_eq_map] using Forms.inList _ ih ihs
  | like ignoreCase _ _ hneg _ ihl ihr => simpa [Tree.term, hneg.kinds] using Forms.like ignoreCase _ ihl ihr
  | between _ _ _ _ _ ih ihlow ihhigh => simpa [Tree.term] using Forms.between ih ihlow ihhigh
  | isNull _ _ _ hneg ih => simpa [Tree.term, hneg.kinds] using Forms.isNull _ ih
  | isRange offset units _ _ _ _ ih => simpa [Tree.term] using Forms.isRange offset units ih
  | sumOne _ ih => exact .sumOne ih
  | sumMore _ hop _ _ ihl ihr => simpa [Tree.term] using Forms.sumMore hop ihl ihr
  | productOne _ ih => exact .productOne ih
  | productMore _ hop _ _ ihl ihr => simpa [Tree.term] using Forms.productMore hop ihl ihr
  | unaryOne _ ih => exact .unaryOne ih
  | unaryNeg _ _ ih => exact .unaryNeg ih
  | constant value => exact .constant value
  | column name => exact .column name
  | word name => exact .word name
  | star => exact .star
  | call name _ _ _ _ ih => simpa [Tree.term, treeTerms_eq_map] using Forms.call name ih
  | paren _ _ _ ih => simpa using Forms.paren ih
  | total _ _ _ ih => simpa [Tree.term] using Forms.total ih
  | itemsLast _ ih => exact .itemsLast ih
  | itemsComma _ _ ih => simpa using Forms.itemsComma ih
  | itemsMore _ _ _ ih ihs => simpa using Forms.itemsMore ih ihs
  | argsNone => exact .argsNone
  | argsSome _ ih => exact .argsSome ih
  | argsLast _ ih => exact .argsLast ih
  | argsMore _ _ _ ih ihs => simpa using Forms.argsMore ih ihs

/-- A reference becomes the tokens of its phrase in parentheses. -/
def pasted (κ : String → List TokenKind) : TokenKind → List TokenKind
  | .reference name => .mark .openParen :: (κ name ++ [.mark .closeParen])
  | kind => [kind]

/-- Tokens of the kinds `ks`, wherever they stand, derive trees that are the terms `xs`. -/
def Realizes (p : Phrase) (ks : List TokenKind) (xs : List Term) : Prop :=
  ∀ ts : List Token, ts.map Token.kind = ks → ∃ es, Derives p ts es ∧ es.map Tree.term = xs

theorem exists_of_kinds_cons {ts : List Token} {k : TokenKind} {ks : List TokenKind}
    (h : ts.map Token.kind = k :: ks) : ∃ p us, ts = ⟨k, p⟩ :: us ∧ us.map Token.kind = ks := by
  obtain ⟨t, us, rfl, rfl, hus⟩ := List.map_eq_cons_iff.mp h
  exact ⟨t.pos, us, rfl, hus⟩

theorem exists_of_kinds_infix {ts : List Token} {k : TokenKind} {ks ls : List TokenKind}
    (h : ts.map Token.kind = ks ++ k :: ls) :
    ∃ us p vs, ts = us ++ ⟨k, p⟩ :: vs ∧ us.map Token.kind = ks ∧ vs.map Token.kind = ls := by
  obtain ⟨us, rest, rfl, hus, hrest⟩ := List.map_eq_append_iff.mp h
  obtain ⟨p, vs, rfl, hvs⟩ := exists_of_kinds_cons hrest
  exact ⟨us, p, vs, rfl, hus, hvs⟩

theorem exists_of_negation {ts : List Token} {negated : Bool} {ks : List TokenKind}
    (h : ts.map Token.kind = negation negated ++ ks) :
    ∃ ns us, ts = ns ++ us ∧ Negation ns negated ∧ us.map Token.kind = ks := by
  cases negated with
  | false => exact ⟨[], ts, rfl, .absent, h⟩
  | true =>
    obtain ⟨p, us, rfl, hus⟩ := exists_of_kinds_cons h
    exact ⟨[⟨.keyword .not, p⟩], us, rfl, .present p, hus⟩

namespace Realizes

variable {p q r : Phrase} {ks ls : List TokenKind} {x y z : Term} {xs : List Term}

theorem one (h : Realizes p ks [x]) {ts : List Token} (hts : ts.map Token.kind = ks) :
    ∃ e, Derives p ts [e] ∧ e.term = x := by
  obtain ⟨es, hes, hterms⟩ := h ts hts
  obtain ⟨e, rfl, he⟩ := List.map_eq_singleton_iff.mp hterms
  exact ⟨e, hes, he⟩

theorem pass (h : Realizes q ks [x]) (hrule : ∀ ts e, Derives q ts [e] → Derives p ts [e]) : Realizes p ks [x] := by
  intro ts hts
  obtain ⟨e, he, hx⟩ := h.one hts
  exact ⟨[e], hrule ts e he, by simp [hx]⟩

theorem lead {k : TokenKind} {build : Nat → Tree → Tree} (h : Realizes q ks [x])
    (hrule : ∀ n ts e, Derives q ts [e] → Derives p (⟨k, n⟩ :: ts) [build n e])
    (hterm : ∀ n e, e.term = x → (build n e).term = z) : Realizes p (k :: ks) [z] := by
  intro ts hts
  obtain ⟨n, us, rfl, hus⟩ := exists_of_kinds_cons hts
  obtain ⟨e, he, hx⟩ := h.one hus
  exact ⟨[build n e], hrule n us e he, by simp [hterm n e hx]⟩

theorem binary {k : TokenKind} {build : Tree → Tree → Tree} (hl : Realizes q ks [x]) (hr : Realizes r ls [y])
    (hrule : ∀ n us vs l e, Derives q us [l] → Derives r vs [e] → Derives p (us ++ ⟨k, n⟩ :: vs) [build l e])
    (hterm : ∀ l e, l.term = x → e.term = y → (build l e).term = z) : Realizes p (ks ++ k :: ls) [z] := by
  intro ts hts
  obtain ⟨us, n, vs, rfl, hus, hvs⟩ := exists_of_kinds_infix hts
  obtain ⟨l, hl, hx⟩ := hl.one hus
  obtain ⟨e, he, hy⟩ := hr.one hvs
  exact ⟨[build l e], hrule n us vs l e hl he, by simp [hterm l e hx hy]⟩

theorem enclosed {k k' : TokenKind} {build : Nat → Tree → Tree} (h : Realizes q ks [x])
    (hrule : ∀ n m ts e, Derives q ts [e] → Derives p (⟨k, n⟩ :: (ts ++ [⟨k', m⟩])) [build n e])
    (hterm : ∀ n e, e.term = x → (build n e).term = z) : Realizes p (k :: (ks ++ [k'])) [z] := by
  intro ts hts
  obtain ⟨n, us, rfl, hus⟩ := exists_of_kinds_cons hts
  obtain ⟨vs, m, rest, rfl, hvs, hrest⟩ := exists_of_kinds_infix hus
  obtain rfl := List.map_eq_nil_iff.mp hrest
  obtain ⟨e, he, hx⟩ := h.one hvs
  exact ⟨[build n e], hrule n m vs e he, by simp [hterm n e hx]⟩

theorem more {k : TokenKind} (h : Realizes q ks [x]) (hmore : Realizes p ls xs)
    (hrule : ∀ n us vs e es, Derives q us [e] → Derives p vs es → Derives p (us ++ ⟨k, n⟩ :: vs) (e :: es)) :
    Realizes p (ks ++ k :: ls) (x :: xs) := by
  intro ts hts
  obtain ⟨us, n, vs, rfl, hus, hvs⟩ := exists_of_kinds_infix hts
  obtain ⟨e, he, hx⟩ := h.one hus
  obtain ⟨es, hes, hxs⟩ := hmore vs hvs
  exact ⟨e :: es, hrule n us vs e es he hes, by rw [List.map_cons, hx, hxs]⟩

theorem leaf {k : TokenKind} {build : Nat → Tree} (hrule : ∀ n, Derives p [⟨k, n⟩] [build n])
    (hterm : ∀ n, (build n).term = z) : Realizes p [k] [z] := by
  intro ts hts
  obtain ⟨n, us, rfl, hus⟩ := exists_of_kinds_cons hts
  obtain rfl := List.map_eq_nil_iff.mp hus
  exact ⟨[build n], hrule n, by simp [hterm n]⟩

theorem comma (h : Realizes .or ks [x]) : Realizes .items (ks ++ [.mark .comma]) [x] := by
  intro ts hts
  obtain ⟨us, n, rest, rfl, hus, hrest⟩ := exists_of_kinds_infix hts
  obtain rfl := List.map_eq_nil_iff.mp hrest
  obtain ⟨e, he, hx⟩ := h.one hus
  exact ⟨[e], .itemsComma n he, by simp [hx]⟩

theorem call (h : Realizes .args ks xs) (name : String) :
    Realizes .primary (.word name :: .mark .openParen :: (ks ++ [.mark .closeParen])) [.call name xs] := by
  intro ts hts
  obtain ⟨n, us, rfl, hus⟩ := exists_of_kinds_cons hts
  obtain ⟨m, vs, rfl, hvs⟩ := exists_of_kinds_cons hus
  obtain ⟨inner, l, rest, rfl, hinner, hrest⟩ := exists_of_kinds_infix hvs
  obtain rfl := List.map_eq_nil_iff.mp hrest
  obtain ⟨es, hes, hterms⟩ := h inner hinner
  exact ⟨[_], .call name n m l hes, by simp [Tree.term, treeTerms_eq_map, hterms]⟩

theorem inList (h : Realizes .sum ks [x]) (negated : Bool) (hitems : Realizes .items ls xs) :
    Realizes .predicate
      (ks ++ (negation negated ++ .keyword .in :: .mark .openParen :: (ls ++ [.mark .closeParen])))
      [.inList x xs negated] := by
  intro ts hts
  obtain ⟨us, rest, rfl, hus, hrest⟩ := List.map_eq_append_iff.mp hts
  obtain ⟨ns, after, rfl, hns, hafter⟩ := exists_of_negation hrest
  obtain ⟨n, opened, rfl, hopened⟩ := exists_of_kinds_cons hafter
  obtain ⟨m, vs, rfl, hvs⟩ := exists_of_kinds_cons hopened
  obtain ⟨inner, l, last, rfl, hinner, hlast⟩ := exists_of_kinds_infix hvs
  obtain rfl := List.map_eq_nil_iff.mp hlast
  obtain ⟨e, he, hx⟩ := h.one hus
  obtain ⟨es, hes, hterms⟩ := hitems inner hinner
  exact ⟨[_], .inList n m l he hns hes, by simp [Tree.term, treeTerms_eq_map, hterms, hx]⟩

theorem like (h : Realizes .sum ks [x]) (ignoreCase negated : Bool) (hpattern : Realizes .sum ls [y]) :
    Realizes .predicate (ks ++ (negation negated ++ .keyword (if ignoreCase then .ilike else .like) :: ls))
      [.like x y ignoreCase negated] := by
  intro ts hts
  obtain ⟨us, rest, rfl, hus, hrest⟩ := List.map_eq_append_iff.mp hts
  obtain ⟨ns, after, rfl, hns, hafter⟩ := exists_of_negation hrest
  obtain ⟨n, vs, rfl, hvs⟩ := exists_of_kinds_cons hafter
  obtain ⟨e, he, hx⟩ := h.one hus
  obtain ⟨pattern, hp, hy⟩ := hpattern.one hvs
  exact ⟨[_], .like ignoreCase n he hns hp, by simp [Tree.term, hx, hy]⟩

theorem between {ms : List TokenKind} (h : Realizes .sum ks [x]) (hlow : Realizes .sum ls [y])
    (hhigh : Realizes .sum ms [z]) :
    Realizes .predicate (ks ++ .keyword .between :: (ls ++ .keyword .and :: ms)) [.between x y z] := by
  intro ts hts
  obtain ⟨us, n, rest, rfl, hus, hrest⟩ := exists_of_kinds_infix hts
  obtain ⟨vs, m, ws, rfl, hvs, hws⟩ := exists_of_kinds_infix hrest
  obtain ⟨e, he, hx⟩ := h.one hus
  obtain ⟨low, hl, hy⟩ := hlow.one hvs
  obtain ⟨high, hh, hz⟩ := hhigh.one hws
  exact ⟨[_], .between n m he hl hh, by simp [Tree.term, hx, hy, hz]⟩

theorem isNull (h : Realizes .sum ks [x]) (negated : Bool) :
    Realizes .predicate (ks ++ .keyword .is :: (negation negated ++ [.keyword .null])) [.isNull x negated] := by
  intro ts hts
  obtain ⟨us, n, rest, rfl, hus, hrest⟩ := exists_of_kinds_infix hts
  obtain ⟨ns, after, rfl, hns, hafter⟩ := exists_of_negation hrest
  obtain ⟨m, last, rfl, hlast⟩ := exists_of_kinds_cons hafter
  obtain rfl := List.map_eq_nil_iff.mp hlast
  obtain ⟨e, he, hx⟩ := h.one hus
  exact ⟨[_], .isNull n m he hns, by simp [Tree.term, hx]⟩

theorem isRange (h : Realizes .sum ks [x]) (offset units : String) :
    Realizes .predicate (ks ++ [.keyword .is, .word offset, .word units]) [.isRange x offset units] := by
  intro ts hts
  obtain ⟨us, n, rest, rfl, hus, hrest⟩ := exists_of_kinds_infix hts
  obtain ⟨m, after, rfl, hafter⟩ := exists_of_kinds_cons hrest
  obtain ⟨l, last, rfl, hlast⟩ := exists_of_kinds_cons hafter
  obtain rfl := List.map_eq_nil_iff.mp hlast
  obtain ⟨e, he, hx⟩ := h.one hus
  exact ⟨[_], .isRange offset units n m l he, by simp [Tree.term, hx]⟩

end Realizes

section

variable {κ : String → List TokenKind} {σ : String → Term}

theorem pasted_negation (negated : Bool) : (negation negated).flatMap (pasted κ) = negation negated := by
  cases negated <;> rfl

theorem pasted_constant (value : Constant) : pasted κ value.token = [value.token] := by
  cases value with
  | bool b => cases b <;> rfl
  | _ => rfl

theorem Forms.realizes {p : Phrase} {ks : List TokenKind} {xs : List Term} (h : Forms p ks xs)
    (hσ : ∀ name, Realizes .or (κ name) [σ name]) :
    Realizes p (ks.flatMap (pasted κ)) (xs.map (Term.subst σ)) := by
  have hmark (m : Mark) : pasted κ (.mark m) = [.mark m] := rfl
  have hkeyword (k : Keyword) : pasted κ (.keyword k) = [.keyword k] := rfl
  have hword (name : String) : pasted κ (.word name) = [.word name] := rfl
  induction h with
  | orOne _ ih => exact ih.pass fun _ _ => .orOne
  | andOne _ ih => exact ih.pass fun _ _ => .andOne
  | predicateOne _ ih => exact ih.pass fun _ _ => .predicateOne
  | sumOne _ ih => exact ih.pass fun _ _ => .sumOne
  | productOne _ ih => exact ih.pass fun _ _ => .productOne
  | unaryOne _ ih => exact ih.pass fun _ _ => .unaryOne
  | itemsLast _ ih => exact ih.pass fun _ _ => .itemsLast
  | argsLast _ ih => exact ih.pass fun _ _ => .argsLast
  | orMore _ _ ihl ihr =>
    rw [List.flatMap_append, List.flatMap_cons, hkeyword]
    exact ihl.binary ihr (fun n _ _ _ _ => .orMore n) fun l e hl he => by simp [Tree.term, Term.subst, hl, he]
  | andMore _ _ ihl ihr =>
    rw [List.flatMap_append, List.flatMap_cons, hkeyword]
    exact ihl.binary ihr (fun n _ _ _ _ => .andMore n) fun l e hl he => by simp [Tree.term, Term.subst, hl, he]
  | compare op _ _ ihl ihr =>
    rw [List.flatMap_append, List.flatMap_cons, hmark]
    exact ihl.binary ihr (fun n _ _ _ _ => .compare op n) fun l e hl he => by simp [Tree.term, Term.subst, hl, he]
  | sumMore hop _ _ ihl ihr =>
    rw [List.flatMap_append, List.flatMap_cons, hmark]
    exact ihl.binary ihr (fun n _ _ _ _ => .sumMore n hop) fun l e hl he => by simp [Tree.term, Term.subst, hl, he]
  | productMore hop _ _ ihl ihr =>
    rw [List.flatMap_append, List.flatMap_cons, hmark]
    exact ihl.binary ihr (fun n _ _ _ _ => .productMore n hop) fun l e hl he => by simp [Tree.term, Term.subst, hl, he]
  | andNot _ ih => exact ih.lead (fun n _ _ => .andNot n) fun n e he => by simp [Tree.term, Term.subst, he]
  | unaryNeg _ ih => exact ih.lead (fun n _ _ => .unaryNeg n) fun n e he => by simp [Tree.term, Term.subst, he]
  | reference name =>
    simpa [pasted, Term.subst] using (hσ name).enclosed (fun n m _ _ => .paren n m) fun _ _ he => he
  | constant value =>
    rw [List.flatMap_singleton, pasted_constant]
    exact .leaf (.constant value) fun _ => rfl
  | column name => exact .leaf (.column name) fun _ => rfl
  | word name => exact .leaf (.word name) fun _ => rfl
  | star => exact .leaf .star fun _ => rfl
  | paren _ ih =>
    rw [List.flatMap_cons, List.flatMap_append, hmark]
    exact ih.enclosed (fun n m _ _ => .paren n m) fun _ _ he => he
  | total _ ih =>
    rw [List.flatMap_cons, List.flatMap_append, hmark]
    exact ih.enclosed (fun n m _ _ => .total n m) fun n e he => by simp [Tree.term, Term.subst, he]
  | itemsMore _ _ ih ihs =>
    rw [List.flatMap_append, List.flatMap_cons, hmark]
    exact ih.more ihs fun n _ _ _ _ => .itemsMore n
  | argsMore _ _ ih ihs =>
    rw [List.flatMap_append, List.flatMap_cons, hmark]
    exact ih.more ihs fun n _ _ _ _ => .argsMore n
  | argsNone =>
    intro ts hts
    obtain rfl := List.map_eq_nil_iff.mp hts
    exact ⟨[], .argsNone, rfl⟩
  | argsSome _ ih =>
    intro ts hts
    obtain ⟨es, hes, hterms⟩ := ih ts hts
    exact ⟨es, .argsSome hes, hterms⟩
  | itemsComma _ ih =>
    rw [List.flatMap_append]
    exact ih.comma
  | call name _ ih =>
    simp only [List.flatMap_cons, List.flatMap_append, List.flatMap_nil, hmark, hword]
    simpa [Term.subst, substTerms_eq_map] using ih.call name
  | inList negated _ _ ih ihs =>
    simp only [List.flatMap_cons, List.flatMap_append, List.flatMap_nil, hmark, hkeyword, pasted_negation]
    simpa [Term.subst, substTerms_eq_map] using ih.inList negated ihs
  | like ignoreCase negated _ _ ih ihp =>
    simp only [List.flatMap_cons, List.flatMap_append, hkeyword, pasted_negation]
    exact ih.like ignoreCase negated ihp
  | between _ _ _ ih ihlow ihhigh =>
    simp only [List.flatMap_cons, List.flatMap_append, hkeyword]
    exact ih.between ihlow ihhigh
  | isNull negated _ ih =>
    simp only [List.flatMap_cons, List.flatMap_append, List.flatMap_nil, hkeyword, pasted_negation]
    exact ih.isNull negated
  | isRange offset units _ ih =>
    simp only [List.flatMap_cons, List.flatMap_append, List.flatMap_nil, hkeyword, hword]
    exact ih.isRange offset units

end

theorem pasted_of_not_reference {κ : String → List TokenKind} {kind : TokenKind} (h : ∀ name, kind ≠ .reference name) :
    pasted κ kind = [kind] := by
  cases kind with
  | reference name => exact absurd rfl (h name)
  | _ => rfl

theorem parse_of_realizes {out : List Char} {ks : List TokenKind} {x : Term} (hlexes : Lexes out ks)
    (hx : Realizes .or ks [x]) : ∃ tree, Tree.parse (String.ofList out) = .ok tree ∧ tree.term = x := by
  rw [← String.toList_ofList (l := out)] at hlexes
  obtain ⟨ts, p, hscan, hkinds⟩ := scan_of_lexes hlexes
  obtain ⟨tree, hderives, hterm⟩ := hx.one hkinds
  refine ⟨tree, ?_, hterm⟩
  rw [Tree.parse, hscan]
  exact parseTokens_of_derives hderives p

theorem realizes_star : Realizes .or [.mark .star] [.star] := by
  have hprimary : Realizes .primary [.mark .star] [.star] := .leaf .star fun _ => rfl
  exact hprimary.pass fun _ _ h =>
    .orOne (.andOne (.predicateOne (.sumOne (.productOne (.unaryOne h)))))

end ShelfQuery.Expression
