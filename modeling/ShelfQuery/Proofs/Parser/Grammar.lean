import ShelfQuery.Expression.Parser

set_option autoImplicit false

/-!
# The grammar of field expressions

`Derives p ts es` says that the tokens `ts` are a phrase of kind `p` with the trees `es`. Chains of OR, of sums and of
products nest to the left, chains of AND to the right.
-/

namespace ShelfQuery.Expression

inductive Phrase where
  | or | and | predicate | sum | product | unary | primary | items | args | argList

def Comparison.mark : Comparison → Mark
  | .eq => .eq
  | .ne => .ne
  | .lt => .lt
  | .le => .le
  | .gt => .gt
  | .ge => .ge

def Arith.mark : Arith → Mark
  | .add => .plus
  | .sub => .minus
  | .mul => .star
  | .div => .slash

def Constant.token : Constant → TokenKind
  | .null => .keyword .null
  | .bool true => .keyword .true
  | .bool false => .keyword .false
  | .int n => .int n
  | .float x => .float x
  | .text s => .text s

inductive Negation : List Token → Bool → Prop where
  | absent : Negation [] false
  | present (p : Nat) : Negation [⟨.keyword .not, p⟩] true

inductive Derives : Phrase → List Token → List Tree → Prop where
  | orOne {ts e} : Derives .and ts [e] → Derives .or ts [e]
  | orMore {ts us l r} (p : Nat) : Derives .or ts [l] → Derives .and us [r] →
      Derives .or (ts ++ ⟨.keyword .or, p⟩ :: us) [.or l.pos l r]
  | andNot {ts e} (p : Nat) : Derives .and ts [e] →
      Derives .and (⟨.keyword .not, p⟩ :: ts) [.not p e]
  | andOne {ts e} : Derives .predicate ts [e] → Derives .and ts [e]
  | andMore {ts us l r} (p : Nat) : Derives .predicate ts [l] → Derives .and us [r] →
      Derives .and (ts ++ ⟨.keyword .and, p⟩ :: us) [.and l.pos l r]
  | predicateOne {ts e} : Derives .sum ts [e] → Derives .predicate ts [e]
  | compare {ts us l r} (op : Comparison) (p : Nat) : Derives .sum ts [l] → Derives .sum us [r] →
      Derives .predicate (ts ++ ⟨.mark op.mark, p⟩ :: us) [.compare l.pos op l r]
  | inList {ts ns us e es negated} (p q r : Nat) : Derives .sum ts [e] → Negation ns negated →
      Derives .items us es →
      Derives .predicate (ts ++ (ns ++ ⟨.keyword .in, p⟩ :: ⟨.mark .openParen, q⟩ :: (us ++ [⟨.mark .closeParen, r⟩])))
        [.inList e.pos e es negated]
  | like {ts ns us l r negated} (ignoreCase : Bool) (p : Nat) : Derives .sum ts [l] → Negation ns negated →
      Derives .sum us [r] →
      Derives .predicate (ts ++ (ns ++ ⟨.keyword (if ignoreCase then .ilike else .like), p⟩ :: us))
        [.like l.pos l r ignoreCase negated]
  | between {ts us vs e low high} (p q : Nat) : Derives .sum ts [e] → Derives .sum us [low] →
      Derives .sum vs [high] →
      Derives .predicate (ts ++ ⟨.keyword .between, p⟩ :: (us ++ ⟨.keyword .and, q⟩ :: vs))
        [.between e.pos e low high]
  | isNull {ts ns e negated} (p q : Nat) : Derives .sum ts [e] → Negation ns negated →
      Derives .predicate (ts ++ ⟨.keyword .is, p⟩ :: (ns ++ [⟨.keyword .null, q⟩])) [.isNull e.pos e negated]
  | isRange {ts e} (offset units : String) (p q r : Nat) : Derives .sum ts [e] →
      Derives .predicate (ts ++ [⟨.keyword .is, p⟩, ⟨.word offset, q⟩, ⟨.word units, r⟩])
        [.isRange e.pos e offset units q]
  | sumOne {ts e} : Derives .product ts [e] → Derives .sum ts [e]
  | sumMore {ts us l r op} (p : Nat) : op = .add ∨ op = .sub → Derives .sum ts [l] → Derives .product us [r] →
      Derives .sum (ts ++ ⟨.mark op.mark, p⟩ :: us) [.arith l.pos op l r]
  | productOne {ts e} : Derives .unary ts [e] → Derives .product ts [e]
  | productMore {ts us l r op} (p : Nat) : op = .mul ∨ op = .div → Derives .product ts [l] → Derives .unary us [r] →
      Derives .product (ts ++ ⟨.mark op.mark, p⟩ :: us) [.arith l.pos op l r]
  | unaryOne {ts e} : Derives .primary ts [e] → Derives .unary ts [e]
  | unaryNeg {ts e} (p : Nat) : Derives .unary ts [e] → Derives .unary (⟨.mark .minus, p⟩ :: ts) [.neg p e]
  | constant (value : Constant) (p : Nat) : Derives .primary [⟨value.token, p⟩] [.constant p value]
  | column (name : String) (p : Nat) : Derives .primary [⟨.column name, p⟩] [.column p name]
  | word (name : String) (p : Nat) : Derives .primary [⟨.word name, p⟩] [.column p name]
  | star (p : Nat) : Derives .primary [⟨.mark .star, p⟩] [.star p]
  | call {ts es} (name : String) (p q r : Nat) : Derives .args ts es →
      Derives .primary (⟨.word name, p⟩ :: ⟨.mark .openParen, q⟩ :: (ts ++ [⟨.mark .closeParen, r⟩])) [.call p name es]
  | paren {ts e} (p q : Nat) : Derives .or ts [e] →
      Derives .primary (⟨.mark .openParen, p⟩ :: (ts ++ [⟨.mark .closeParen, q⟩])) [e]
  | total {ts e} (p q : Nat) : Derives .or ts [e] →
      Derives .primary (⟨.mark .openTotal, p⟩ :: (ts ++ [⟨.mark .closeTotal, q⟩])) [.total p e]
  | itemsLast {ts e} : Derives .or ts [e] → Derives .items ts [e]
  | itemsComma {ts e} (p : Nat) : Derives .or ts [e] → Derives .items (ts ++ [⟨.mark .comma, p⟩]) [e]
  | itemsMore {ts us e es} (p : Nat) : Derives .or ts [e] → Derives .items us es →
      Derives .items (ts ++ ⟨.mark .comma, p⟩ :: us) (e :: es)
  | argsNone : Derives .args [] []
  | argsSome {ts es} : Derives .argList ts es → Derives .args ts es
  | argsLast {ts e} : Derives .or ts [e] → Derives .argList ts [e]
  | argsMore {ts us e es} (p : Nat) : Derives .or ts [e] → Derives .argList us es →
      Derives .argList (ts ++ ⟨.mark .comma, p⟩ :: us) (e :: es)

theorem Negation.eof_notMem {ns : List Token} {negated : Bool} (h : Negation ns negated) :
    ∀ t ∈ ns, t.kind.isEof = false := by
  cases h <;> simp [TokenKind.isEof]

theorem Derives.eof_notMem {p : Phrase} {ts : List Token} {es : List Tree} (h : Derives p ts es) :
    ∀ t ∈ ts, t.kind.isEof = false := by
  induction h with
  | orOne _ ih | andOne _ ih | predicateOne _ ih | sumOne _ ih | productOne _ ih | unaryOne _ ih
  | itemsLast _ ih | argsSome _ ih | argsLast _ ih => exact ih
  | argsNone => simp
  | column | word | star => simp [TokenKind.isEof]
  | constant value p => cases value with
    | bool b => cases b <;> simp [TokenKind.isEof, Constant.token]
    | _ => simp [TokenKind.isEof, Constant.token]
  | inList _ _ _ _ hn _ ih ihs =>
    have h := hn.eof_notMem
    grind [TokenKind.isEof]
  | like _ _ _ hn _ ih ih' =>
    have h := hn.eof_notMem
    grind [TokenKind.isEof]
  | isNull _ _ _ hn ih =>
    have h := hn.eof_notMem
    grind [TokenKind.isEof]
  | _ => grind [TokenKind.isEof]

end ShelfQuery.Expression
