import ShelfQuery.Proofs.Expression.Tree
import ShelfQuery.Proofs.Parser.Completeness

set_option autoImplicit false

namespace ShelfQuery.Expression

variable {ts : List Token} {p : Phrase} {es : List Tree} {tree : Tree}

def leading? (ts : List Token) : Option Token := ts.find? fun t => !t.kind.isMark .openParen

theorem leading?_append {p : Nat} (h : (leading? ts).map Token.pos = some p) (us : List Token) :
    (leading? (ts ++ us)).map Token.pos = some p := by
  obtain ⟨t, ht, rfl⟩ := Option.map_eq_some_iff.mp h
  unfold leading? at ht ⊢
  rw [List.find?_append, ht]
  rfl

theorem leading?_cons {kind : TokenKind} (h : kind.isMark .openParen = false) (p : Nat) (ts : List Token) :
    (leading? (⟨kind, p⟩ :: ts)).map Token.pos = some p := by
  simp [leading?, h]

/-- A phrase is placed at its first token that is not an opening parenthesis. -/
theorem Derives.leading (h : Derives p ts es) : ∀ e ∈ es.head?, (leading? ts).map Token.pos = some e.pos := by
  induction h with
  | orOne _ ih | andOne _ ih | predicateOne _ ih | sumOne _ ih | productOne _ ih | unaryOne _ ih | itemsLast _ ih
  | argsSome _ ih | argsLast _ ih => exact ih
  | argsNone =>
    intro e he
    cases he
  | andNot | unaryNeg | column | word | star | call | total =>
    intro e he
    cases he
    exact leading?_cons rfl _ _
  | constant value =>
    intro e he
    cases he
    refine leading?_cons ?_ _ _
    cases value with
    | bool b => cases b <;> rfl
    | _ => rfl
  | paren _ _ _ ih =>
    intro e he
    exact leading?_append (ih e he) _
  | orMore _ _ _ ih | andMore _ _ _ ih | compare _ _ _ _ ih | inList _ _ _ _ _ _ ih | like _ _ _ _ _ ih
  | between _ _ _ _ _ ih | isNull _ _ _ _ ih | isRange _ _ _ _ _ _ ih | sumMore _ _ _ _ ih | productMore _ _ _ _ ih =>
    intro e he
    cases he
    exact leading?_append (ih _ rfl) _
  | itemsComma _ _ ih | itemsMore _ _ _ ih | argsMore _ _ _ ih =>
    intro e he
    cases he
    exact leading?_append (ih _ rfl) _

theorem infix_cons_append (t : Token) (ts us : List Token) : ts <:+: t :: (ts ++ us) := ⟨[t], us, rfl⟩

theorem infix_append_cons (t : Token) (us ts : List Token) : ts <:+: us ++ t :: ts := ⟨us ++ [t], [], by simp⟩

def Spans (ts : List Token) (tree : Tree) : Prop := ∃ us p, us <:+: ts ∧ Derives p us [tree]

theorem Spans.mono {ts us : List Token} (h : Spans us tree) (hpart : us <:+: ts) : Spans ts tree := by
  obtain ⟨vs, p, hvs, hderives⟩ := h
  exact ⟨vs, p, hvs.trans hpart, hderives⟩

theorem Derives.spans {ts us : List Token} (h : Derives p us [tree]) (hpart : us <:+: ts) :
    Spans ts tree := ⟨us, p, hpart, h⟩

theorem Derives.spans_mem (h : Derives p ts es) {e : Tree} (he : e ∈ es) : Spans ts e := by
  induction es generalizing p ts with
  | nil => cases he
  | cons e' es ih =>
    have hmore {us vs : List Token} {p : Nat} {q : Phrase} (he' : Derives .or us [e']) (hes : Derives q vs es) :
        Spans (us ++ ⟨.mark .comma, p⟩ :: vs) e := by
      rcases List.mem_cons.mp he with rfl | he
      · exact he'.spans (List.prefix_append _ _).isInfix
      · exact (ih hes he).mono ⟨us ++ [⟨.mark .comma, p⟩], [], by simp⟩
    cases es with
    | nil =>
      obtain rfl := List.mem_singleton.mp he
      exact h.spans List.infix_rfl
    | cons e'' es =>
      cases h with
      | itemsMore _ he' hes => exact hmore he' hes
      | argsMore _ he' hes => exact hmore he' hes
      | argsSome h =>
        cases h with
        | argsMore _ he' hes => exact hmore he' hes

theorem Derives.spans_child (h : Derives p ts es) : ∀ e ∈ es.head?, ∀ child ∈ e.children, Spans ts child := by
  induction h with
  | orOne _ ih | andOne _ ih | predicateOne _ ih | sumOne _ ih | productOne _ ih | unaryOne _ ih | itemsLast _ ih
  | argsSome _ ih | argsLast _ ih => exact ih
  | argsNone =>
    intro e he
    cases he
  | column | word | star | constant =>
    intro e he child hchild
    cases he
    cases hchild
  | andNot _ h | unaryNeg _ h =>
    intro e he child hchild
    cases he
    obtain rfl := List.mem_singleton.mp hchild
    exact h.spans (List.suffix_cons _ _).isInfix
  | total _ _ h =>
    intro e he child hchild
    cases he
    obtain rfl := List.mem_singleton.mp hchild
    exact h.spans (infix_cons_append _ _ _)
  | call _ _ _ _ h =>
    intro e he child hchild
    cases he
    exact (h.spans_mem hchild).mono ((infix_cons_append _ _ _).trans (List.suffix_cons _ _).isInfix)
  | paren _ _ _ ih =>
    intro e he child hchild
    exact (ih e he child hchild).mono (infix_cons_append _ _ _)
  | itemsComma _ _ ih | itemsMore _ _ _ ih | argsMore _ _ _ ih =>
    intro e he child hchild
    cases he
    exact (ih _ rfl child hchild).mono (List.prefix_append _ _).isInfix
  | orMore _ hl hr | andMore _ hl hr | compare _ _ hl hr | sumMore _ _ hl hr | productMore _ _ hl hr =>
    intro e he child hchild
    cases he
    simp only [Tree.children, List.mem_cons, List.not_mem_nil, or_false] at hchild
    rcases hchild with rfl | rfl
    · exact hl.spans (List.prefix_append _ _).isInfix
    · exact hr.spans (infix_append_cons _ _ _)
  | isNull _ _ h | isRange _ _ _ _ _ h =>
    intro e he child hchild
    cases he
    obtain rfl := List.mem_singleton.mp hchild
    exact h.spans (List.prefix_append _ _).isInfix
  | inList _ _ _ h _ hitems =>
    intro e he child hchild
    cases he
    rcases List.mem_cons.mp hchild with rfl | hchild
    · exact h.spans (List.prefix_append _ _).isInfix
    · refine (hitems.spans_mem hchild).mono ?_
      exact ((infix_cons_append _ _ _).trans (infix_append_cons _ _ _)).trans (List.suffix_append _ _).isInfix
  | like _ _ hl _ hr =>
    intro e he child hchild
    cases he
    simp only [Tree.children, List.mem_cons, List.not_mem_nil, or_false] at hchild
    rcases hchild with rfl | rfl
    · exact hl.spans (List.prefix_append _ _).isInfix
    · exact hr.spans ((infix_append_cons _ _ _).trans (List.suffix_append _ _).isInfix)
  | between _ _ h hlow hhigh =>
    intro e he child hchild
    cases he
    simp only [Tree.children, List.mem_cons, List.not_mem_nil, or_false] at hchild
    rcases hchild with rfl | rfl | rfl
    · exact h.spans (List.prefix_append _ _).isInfix
    · exact hlow.spans ((List.prefix_append _ _).isInfix.trans (infix_append_cons _ _ _))
    · exact hhigh.spans ((infix_append_cons _ _ _).trans (infix_append_cons _ _ _))

theorem Spans.within {tree node : Tree} (h : Spans ts tree) (hwithin : tree.Within node) : Spans ts node := by
  induction hwithin with
  | self => exact h
  | step hchild _ ih =>
    obtain ⟨us, p, hus, hderives⟩ := h
    exact ih ((hderives.spans_child _ rfl _ hchild).mono hus)

theorem Derives.offset_mem (h : Derives p ts es) {pos q : Nat} {arg : Tree}
    {offset units : String} (he : es = [.isRange pos arg offset units q]) : ⟨.word offset, q⟩ ∈ ts := by
  induction h with
  | orOne _ ih | andOne _ ih | predicateOne _ ih | sumOne _ ih | productOne _ ih | unaryOne _ ih | itemsLast _ ih
  | argsSome _ ih | argsLast _ ih => exact ih he
  | paren _ _ _ ih => exact List.mem_cons_of_mem _ (List.mem_append_left _ (ih he))
  | itemsComma _ _ ih => exact List.mem_append_left _ (ih he)
  | itemsMore _ _ _ ih | argsMore _ _ _ ih =>
    obtain ⟨rfl, rfl⟩ := List.cons.inj he
    exact List.mem_append_left _ (ih rfl)
  | isRange =>
    cases he
    simp
  | _ => cases he

end ShelfQuery.Expression
