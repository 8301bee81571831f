import ShelfQuery.Proofs.Engine.Texts
import ShelfQuery.Proofs.Recipe.ListOrder
import ShelfQuery.Proofs.Schema.Names
import ShelfQuery.Proofs.Shelf.Expansion

set_option autoImplicit false

namespace ShelfQuery.Recipe

open ShelfQuery.Expression ShelfQuery.Text ShelfQuery.Number ShelfQuery.Sql ShelfQuery.Data ShelfQuery.Schema
open ShelfQuery.Engine (Pointed pointed_plain)

def escaped : List Char → List Char
  | [] => ['"']
  | c :: cs => if c = '"' ∨ c = '\\' then '\\' :: c :: escaped cs else c :: escaped cs

def operandText : Json → String
  | .float x => Engine.withPoint (plain x)
  | .str s => String.ofList ('"' :: escaped s.toList)
  | v => v.compact

def operandLiteral : Json → Literal
  | .bool b => .bool b
  | .int n => if n.natAbs < 2 ^ 63 then .int n else .float (Binary64.ofInt n)
  | .float x => .float x
  | .str s => .text s
  | _ => .null

inductive Denotes : Tree → Literal → Prop where
  | constant {pos : Nat} {value : Constant} : isFiniteLiteral value.literal = true →
      Denotes (.constant pos value) value.literal
  | neg {pos : Nat} {arg : Tree} {l : Literal} {n : Float} : Denotes arg l → l.number? = some n →
      Denotes (.neg pos arg) (negateLiteral l)

/-- What follows is set apart by a blank, or nothing follows. -/
def Apart (rest : List Char) : Prop := Stops (fun c => c != ' ') rest.head?

theorem Apart.stops {rest : List Char} (h : Apart rest) {p : Char → Bool} (hblank : p ' ' = false) :
    Stops p rest.head? := by
  cases rest with
  | nil => rfl
  | cons c rest =>
    have hc : c = ' ' := by simpa [Apart, Stops] using h
    simpa [Stops, hc] using hblank

/-- Set apart from what follows, the text is read as an operand that stands for the literal. -/
def Writes (text : List Char) (l : Literal) : Prop :=
  ∃ ks x, (∀ rest ls, Apart rest → Lexes rest ls → Lexes (text ++ rest) (ks ++ ls)) ∧ Realizes .unary ks [x] ∧
    ∀ tree : Tree, tree.term = x → Denotes tree l

theorem writes_constant (value : Constant) (hfinite : isFiniteLiteral value.literal = true) {c : Char}
    {used : List Char} (hblank : isBlank c = false)
    (hlexeme : ∀ rest, Apart rest → Lexeme c used value.token rest.head?) : Writes (c :: used) value.literal := by
  refine ⟨[value.token], .constant value, fun rest ls hrest hls => ?_, ?_, fun tree htree => ?_⟩
  · exact @Lexes.token [] c used rest _ _ (by simp) hblank (hlexeme rest hrest) hls
  · have hprimary : Realizes .primary [value.token] [.constant value] := .leaf (fun n => .constant value n) fun _ => rfl
    exact hprimary.pass fun _ _ h => .unaryOne h
  · cases tree with
    | constant pos value' =>
      cases htree
      exact .constant hfinite
    | _ => cases htree

theorem Writes.neg {text : List Char} {l : Literal} (h : Writes text l) {n : Float} (hnumber : l.number? = some n) :
    Writes ('-' :: text) (negateLiteral l) := by
  obtain ⟨ks, x, hlexes, hrealizes, hdenotes⟩ := h
  refine ⟨.mark .minus :: ks, .neg x, fun rest ls hrest hls => ?_, ?_, fun tree htree => ?_⟩
  · exact @Lexes.token [] '-' [] (text ++ rest) _ _ (by simp) rfl (.single (by decide)) (hlexes rest ls hrest hls)
  · exact hrealizes.lead (fun n ts e he => .unaryNeg n he) fun n e he => congrArg Term.neg he
  · cases tree with
    | neg pos arg => exact .neg (hdenotes arg (Term.neg.inj htree)) hnumber
    | _ => cases htree

theorem writes_word (value : Constant) (hfinite : isFiniteLiteral value.literal = true) {c : Char} {used : List Char}
    (hblank : isBlank c = false) (hstart : (isAlphabetic c || c == '_') = true)
    (hused : used.all Expression.isWordChar = true) (hkind : wordKind (c :: used) = value.token) :
    Writes (c :: used) value.literal := by
  apply writes_constant value hfinite hblank
  intro rest hrest
  rw [← hkind]
  exact .word hstart (List.all_eq_true.mp hused) (hrest.stops (by decide))

theorem quoted_escaped (cs : List Char) : Quoted '"' (escaped cs) cs := by
  induction cs with
  | nil => exact .close
  | cons c cs ih =>
    by_cases h : c = '"' ∨ c = '\\'
    · rw [escaped, if_pos h]
      exact .escape c ih
    · rw [escaped, if_neg h]
      obtain ⟨hquote, hslash⟩ := not_or.mp h
      exact .plain hslash hquote ih

theorem writes_text (s : String) : Writes ('"' :: escaped s.toList) (.text s) := by
  apply writes_constant (.text s) rfl (by decide)
  intro rest _
  have hlexeme : Lexeme '"' (escaped s.toList) (.text (String.ofList s.toList)) rest.head? :=
    .quoted (by decide) (quoted_escaped _)
  rwa [String.ofList_toList] at hlexeme

theorem writes_pointed {text : String} {x : Float} (h : Pointed text x) (hfinite : Binary64.isFinite x = true) :
    Writes text.toList (.float x) := by
  obtain ⟨whole, fraction, rfl, hne, hwhole, hfraction, rfl⟩ := h
  obtain ⟨c, digits, rfl⟩ := List.exists_cons_of_ne_nil hne
  rw [String.toList_ofList]
  apply writes_constant (.float _) hfinite (isBlank_of_isDigit (hwhole c (by simp)))
  intro rest hrest
  exact .decimal rfl hwhole hfraction (by simp) (hrest.stops (by decide))

def naturalLiteral (n : Nat) : Literal := if n < 2 ^ 63 then .int n else .float (Binary64.ofInt n)

theorem writes_natural {n : Nat} (h : n < 2 ^ 64) : Writes (Nat.toDigits 10 n) (naturalLiteral n) := by
  have hdigits := isDigits_toDigits n
  have hvalue := valueOf_toDigits n
  obtain ⟨c, digits, hcons⟩ := List.exists_cons_of_ne_nil (@Nat.toDigits_ne_nil n 10)
  rw [hcons] at hdigits hvalue ⊢
  have hblank := isBlank_of_isDigit (hdigits c (by simp))
  have hlexeme (rest : List Char) (hrest : Apart rest) : Lexeme c digits (intToken (c :: digits)) rest.head? :=
    .int hdigits (hrest.stops (by decide))
  rw [intToken, hvalue, Nat.pow_eq] at hlexeme
  by_cases hword : n < 2 ^ 63
  · rw [if_pos hword] at hlexeme
    rw [naturalLiteral, if_pos hword]
    exact writes_constant (.int n) rfl hblank hlexeme
  · rw [if_neg hword, Binary64.ofDecimal_natural h] at hlexeme
    rw [naturalLiteral, if_neg hword]
    exact writes_constant (.float _) (@Binary64.isFinite_ofInt n h) hblank hlexeme

theorem writes_int {n : Int} (hlow : -(2 ^ 63) ≤ n) (hhigh : n < 2 ^ 64) :
    Writes (toString n).toList (operandLiteral (.int n)) := by
  have hsize : n.natAbs < 2 ^ 64 := by omega
  have hnatural := writes_natural hsize
  rw [naturalLiteral] at hnatural
  rw [operandLiteral]
  rcases Int.lt_or_le n 0 with hneg | hpos
  · rw [toList_negative hneg]
    by_cases hword : n.natAbs < 2 ^ 63
    · rw [if_pos hword] at hnatural
      have hfits : fitsWord n = true := fitsWord_iff.mpr (by omega)
      have hnegate : negateLiteral (.int n.natAbs) = .int n := by
        rw [negateLiteral, show -(n.natAbs : Int) = n by omega, wordOr, if_pos hfits]
      rw [if_pos hword, ← hnegate]
      exact hnatural.neg rfl
    · -- of the negative integers only the least has digits that fit no word
      have hleast : n = -(2 ^ 63) := by omega
      subst hleast
      rw [if_neg (by decide)] at hnatural ⊢
      rw [← Binary64.ofInt_least]
      exact hnatural.neg rfl
  · have hn : (n.natAbs : Int) = n := by omega
    rw [hn] at hnatural
    rwa [toList_natural hpos]

theorem writes_float {x : Float} (h : Binary64.isFinite x = true) :
    Writes (Engine.withPoint (plain x)).toList (.float x) := by
  obtain ⟨negative, text, y, htext, hpointed, hfinite, rfl⟩ := pointed_plain h
  rw [htext, String.toList_append]
  have hwrites := writes_pointed hpointed hfinite
  cases negative with
  | false => exact hwrites
  | true => exact hwrites.neg rfl

theorem writes_operandText {v : Json} (h : isScalar v = true) : Writes (operandText v).toList (operandLiteral v) := by
  cases v with
  | null =>
    have htext : (operandText .null).toList = ['n', 'u', 'l', 'l'] := rfl
    rw [htext]
    exact writes_word .null rfl (by decide) (by decide) rfl rfl
  | bool b =>
    cases b with
    | false =>
      have htext : (operandText (.bool false)).toList = ['f', 'a', 'l', 's', 'e'] := rfl
      rw [htext]
      exact writes_word (.bool false) rfl (by decide) (by decide) rfl rfl
    | true =>
      have htext : (operandText (.bool true)).toList = ['t', 'r', 'u', 'e'] := rfl
      rw [htext]
      exact writes_word (.bool true) rfl (by decide) (by decide) rfl rfl
  | int n =>
    have hrange : -(2 ^ 63) ≤ n ∧ n < 2 ^ 64 := by simpa [isScalar] using h
    exact writes_int hrange.1 hrange.2
  | float x => exact writes_float h
  | str s =>
    have htext : (operandText (.str s)).toList = '"' :: escaped s.toList := String.toList_ofList
    rw [htext]
    exact writes_text s
  | arr vs => cases h
  | obj ms => cases h

def columnText (name : String) : String := "[" ++ name ++ "]"

def comparisonText (name : String) (op : Comparison) (v : Json) : String :=
  columnText name ++ " " ++ op.mark.spelling ++ " " ++ operandText v

def rangeText (name : String) (low high : Json) : String :=
  columnText name ++ " BETWEEN " ++ operandText low ++ " AND " ++ operandText high

theorem lexes_column {schema : Table} {name : String} {column : Column} (hcolumn : schema.find? name = some column)
    {rest : List Char} {ls : List TokenKind} (hrest : Lexes rest ls) :
    Lexes ((columnText name).toList ++ rest) (.column name :: ls) := by
  obtain ⟨hne, hchars⟩ := isNameChar_of_find? hcolumn
  have htrim := trim_eq_self fun c hc => isBlank_of_isNameChar (hchars c hc)
  have hclose : ']' ∉ name.toList := fun hmem => absurd (hchars _ hmem) (by decide)
  have hlexeme : Lexeme '[' (name.toList ++ [']']) (.column (String.ofList (trim name.toList))) rest.head? :=
    .column hclose (by rwa [htrim])
  rw [htrim, String.ofList_toList] at hlexeme
  have htext : (columnText name).toList ++ rest = [] ++ '[' :: (name.toList ++ [']'] ++ rest) := by
    simp [columnText]
  rw [htext]
  exact .token (by simp) (by decide) hlexeme hrest

theorem isBlank_gap : ∀ c ∈ [' '], isBlank c = true := by
  intro c hc
  rw [List.mem_singleton.mp hc]
  decide

theorem lexes_comparison (op : Comparison) {rest : List Char} {ls : List TokenKind} (hrest : Lexes rest ls) :
    Lexes (' ' :: (op.mark.spelling.toList ++ ' ' :: rest)) (.mark op.mark :: ls) := by
  have hafter := Lexes.blank isBlank_gap hrest
  have hone {c : Char} {m : Mark} {longer : List Char} (hmark : (c, longer, m) ∈ openMarks)
      (hnot : longer.contains ' ' = false) (hc : isBlank c = false) : Lexes (' ' :: c :: ' ' :: rest) (.mark m :: ls) :=
    @Lexes.token [' '] c [] (' ' :: rest) _ _ isBlank_gap hc (.opening hmark (by simpa [Stops] using hnot)) hafter
  have htwo {c d : Char} {m : Mark} (hmark : (c, d, m) ∈ doubleMarks) (hc : isBlank c = false) :
      Lexes (' ' :: c :: d :: ' ' :: rest) (.mark m :: ls) :=
    @Lexes.token [' '] c [d] (' ' :: rest) _ _ isBlank_gap hc (.double hmark) hafter
  cases op with
  | eq => exact @hone '=' .eq ['='] (by decide) (by decide) (by decide)
  | ne => exact @htwo '!' '=' .ne (by decide) (by decide)
  | lt => exact @hone '<' .lt ['=', '>'] (by decide) (by decide) (by decide)
  | le => exact @htwo '<' '=' .le (by decide) (by decide)
  | gt => exact @hone '>' .gt ['='] (by decide) (by decide) (by decide)
  | ge => exact @htwo '>' '=' .ge (by decide) (by decide)

theorem lexes_keyword {k : Keyword} {c : Char} {used : List Char} (hkind : wordKind (c :: used) = .keyword k)
    (hblank : isBlank c = false) (hstart : (isAlphabetic c || c == '_') = true)
    (hused : used.all Expression.isWordChar = true) {rest : List Char} {ls : List TokenKind} (hrest : Lexes rest ls) :
    Lexes (' ' :: (c :: used ++ ' ' :: rest)) (.keyword k :: ls) := by
  have hlexeme : Lexeme c used (wordKind (c :: used)) (' ' :: rest).head? :=
    .word hstart (List.all_eq_true.mp hused) rfl
  rw [hkind] at hlexeme
  exact @Lexes.token [' '] c used (' ' :: rest) _ _ isBlank_gap hblank hlexeme (Lexes.blank isBlank_gap hrest)

theorem realizes_column (name : String) : Realizes .sum [.column name] [.column name] := by
  have hprimary : Realizes .primary [.column name] [.column name] := .leaf (.column name) fun _ => rfl
  exact hprimary.pass fun _ _ h => .sumOne (.productOne (.unaryOne h))

theorem column_of_term {tree : Tree} {name : String} (h : tree.term = .column name) : ∃ pos, tree = .column pos name := by
  cases tree with
  | column pos name' =>
    cases h
    exact ⟨pos, rfl⟩
  | _ => cases h

section

variable {schema : Table} {name : String} {column : Column} (hcolumn : schema.find? name = some column)

include hcolumn

theorem parse_column : ∃ pos, Tree.parse (columnText name) = .ok (.column pos name) := by
  have hlexes := lexes_column hcolumn (@Lexes.done [] (by simp))
  have hrealizes := (realizes_column name).pass fun _ _ h => .orOne (.andOne (.predicateOne h))
  obtain ⟨tree, hparse, hterm⟩ := parse_of_realizes hlexes hrealizes
  obtain ⟨pos, rfl⟩ := column_of_term hterm
  rw [List.append_nil, String.ofList_toList] at hparse
  exact ⟨pos, hparse⟩

theorem parse_comparison (op : Comparison) {v : Json} {l : Literal} (hv : Writes (operandText v).toList l) :
    ∃ pos place right, Tree.parse (comparisonText name op v) = .ok (.compare pos op (.column place name) right) ∧
      Denotes right l := by
  obtain ⟨ks, x, hlexes, hrealizes, hdenotes⟩ := hv
  have hoperand : Lexes (operandText v).toList ks := by simpa using hlexes [] [] rfl (.done (by simp))
  have htext := lexes_column hcolumn (lexes_comparison op hoperand)
  have hsum := hrealizes.pass fun _ _ h => .sumOne (.productOne h)
  have hcompare : Realizes .predicate ([.column name] ++ .mark op.mark :: ks) [.compare op (.column name) x] :=
    (realizes_column name).binary hsum (fun n _ _ _ _ => .compare op n) fun l e hl he => by simp [Tree.term, hl, he]
  obtain ⟨tree, hparse, hterm⟩ := parse_of_realizes htext (hcompare.pass fun _ _ h => .orOne (.andOne h))
  cases tree with
  | compare pos op' left right =>
    simp only [Tree.term, Term.compare.injEq] at hterm
    obtain ⟨rfl, hleft, hright⟩ := hterm
    obtain ⟨place, rfl⟩ := column_of_term hleft
    refine ⟨pos, place, right, ?_, hdenotes right hright⟩
    rw [← hparse]
    refine congrArg Tree.parse (String.toList_inj.mp ?_)
    simp [comparisonText]
  | _ => cases hterm

theorem parse_range {low high : Json} {l h : Literal} (hlow : Writes (operandText low).toList l)
    (hhigh : Writes (operandText high).toList h) :
    ∃ pos place left right, Tree.parse (rangeText name low high) = .ok (.between pos (.column place name) left right) ∧
      Denotes left l ∧ Denotes right h := by
  obtain ⟨ks, x, hlexes, hrealizes, hdenotes⟩ := hlow
  obtain ⟨ls, y, hlexes', hrealizes', hdenotes'⟩ := hhigh
  have hlast : Lexes (operandText high).toList ls := by simpa using hlexes' [] [] rfl (.done (by simp))
  have hand := @lexes_keyword .and 'A' ['N', 'D'] rfl (by decide) (by decide) rfl _ _ hlast
  have hrange := @lexes_keyword .between 'B' ['E', 'T', 'W', 'E', 'E', 'N'] rfl (by decide) (by decide) rfl _ _
    (hlexes _ _ (by rfl) hand)
  have htext := lexes_column hcolumn hrange
  have hsum := hrealizes.pass fun _ _ h => .sumOne (.productOne h)
  have hsum' := hrealizes'.pass fun _ _ h => .sumOne (.productOne h)
  have hbetween := (realizes_column name).between hsum hsum'
  obtain ⟨tree, hparse, hterm⟩ := parse_of_realizes htext (hbetween.pass fun _ _ h => .orOne (.andOne h))
  cases tree with
  | between pos arg left right =>
    simp only [Tree.term, Term.between.injEq] at hterm
    obtain ⟨harg, hleft, hright⟩ := hterm
    obtain ⟨place, rfl⟩ := column_of_term harg
    refine ⟨pos, place, left, right, ?_, hdenotes left hleft, hdenotes' right hright⟩
    rw [← hparse]
    refine congrArg Tree.parse (String.toList_inj.mp ?_)
    simp [rangeText]
  | _ => cases hterm

end

end ShelfQuery.Recipe
