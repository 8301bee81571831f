import Mathlib.Data.List.Forall2
import ShelfQuery.Proofs.Sql.Reader.Rules

set_option autoImplicit false

namespace ShelfQuery.Sql.Reader

open ShelfQuery.Text

/-- `text` is read as `e` where something that binds no tighter than `k` follows. -/
def Reads (k : Nat) (text : String) (e : Expr) : Prop := ∃ ts, Lexes text ts ∧ Parses k ts e

theorem Breaks.append {a : String} (h : Breaks a) (b : String) : Breaks (a ++ b) := by
  unfold Breaks at h ⊢
  rw [String.toList_append]
  cases ha : a.toList with
  | nil => simp [ha] at h
  | cons c rest => simpa [ha] using h

theorem Lexes.glue {a g b : String} {ts us vs : List Token} (ha : Lexes a ts) (hg : Opens g us) (hbreak : Breaks g)
    (hb : Lexes b vs) : Lexes (a ++ (g ++ b)) (ts ++ (us ++ vs)) := ha.append (hg.append hb) (hbreak.append b)

theorem read_of_reads {k : Nat} {text : String} {e : Expr} (h : Reads k text e) : read text = some e := by
  obtain ⟨ts, hlexes, hparses⟩ := h
  have hread : readExpr (ts.length + 1) 0 (ts ++ []) = some (e, []) :=
    hparses.read (Nat.zero_le k) rfl (Nat.lt_succ_self _)
  rw [List.append_nil] at hread
  simp [read, tokens?_of_lexes hlexes, hread]

namespace Reads

variable {k m n : Nat} {a b c : String} {d e f : Expr}

theorem mono (h : Reads k a e) (hle : m ≤ k) : Reads m a e := by
  obtain ⟨ts, hlexes, hparses⟩ := h
  exact ⟨ts, hlexes, hparses.mono hle⟩

theorem paren (h : Reads k a e) : Reads m ("(" ++ a ++ ")") e := by
  obtain ⟨ts, hlexes, hparses⟩ := h
  refine ⟨_, ?_, hparses.paren⟩
  rw [String.append_assoc]
  have hopen : Opens "(" [.symbol .openParen] := rfl
  have hclose : Opens ")" [.symbol .closeParen] := rfl
  exact hopen.append (hlexes.append hclose.lexes rfl)

theorem binary {g : String} {t : Token} {op : BinaryOp} (hg : Opens g [t]) (hbreak : Breaks g) (ht : t.binary? = some op)
    (ha : Reads m a d) (hb : Reads k b e) (hm : op.level ≤ m) (hk : op.level < k) :
    Reads op.level (a ++ g ++ b) (op.apply d e) := by
  obtain ⟨ts, hlexes, hparses⟩ := ha
  obtain ⟨us, hlexes', hparses'⟩ := hb
  refine ⟨_, ?_, hparses.binary ht hparses' hm hk⟩
  rw [String.append_assoc]
  exact hlexes.glue hg hbreak hlexes'

theorem not (h : Reads k a e) (hk : comparisonLevel ≤ k) : Reads 4 ("NOT " ++ a) (.not e) := by
  obtain ⟨ts, hlexes, hparses⟩ := h
  have hopen : Opens "NOT " [.word "NOT"] := rfl
  exact ⟨_, hopen.append hlexes, hparses.not hk⟩

theorem neg (h : Reads signLevel a e) {first : Char} {rest : List Char} (ha : a.toList = first :: rest)
    (hdash : first ≠ '-') (harrow : first ≠ '>') : Reads 9 ("-" ++ a) (.neg e) := by
  obtain ⟨ts, hlexes, hparses⟩ := h
  exact ⟨_, hlexes.minus ha hdash harrow, hparses.neg⟩

theorem isNull (h : Reads m a e) (hm : comparisonLevel ≤ m) (negated : Bool) :
    Reads comparisonLevel (a ++ " IS " ++ (if negated then "NOT " else "") ++ "NULL") (.isNull e negated) := by
  obtain ⟨ts, hlexes, hparses⟩ := h
  refine ⟨_, ?_, hparses.isNull hm negated⟩
  rw [String.append_assoc, String.append_assoc]
  have his : Opens " IS " [.word "IS"] := rfl
  refine hlexes.glue his rfl ?_
  cases negated <;> exact ⟨_, _, _, rfl, rfl, rfl⟩

theorem between (ha : Reads m a d) (hb : Reads k b e) (hc : Reads k c f) (hm : comparisonLevel ≤ m)
    (hk : comparisonLevel < k) : Reads comparisonLevel (a ++ " BETWEEN " ++ b ++ " AND " ++ c) (.between d e f) := by
  obtain ⟨ts, hlexes, hparses⟩ := ha
  obtain ⟨us, hlexes', hparses'⟩ := hb
  obtain ⟨vs, hlexes'', hparses''⟩ := hc
  refine ⟨_, ?_, hparses.between hparses' hparses'' hm hk⟩
  have hbetween : Opens " BETWEEN " [.word "BETWEEN"] := rfl
  have hand : Opens " AND " [.word "AND"] := rfl
  simp only [String.append_assoc]
  exact hlexes.glue hbetween rfl (hlexes'.glue hand rfl hlexes'')

theorem cast (h : Reads m a e) (type : CastType) : Reads k ("CAST(" ++ a ++ " AS " ++ type.name ++ ")") (.cast e type) := by
  obtain ⟨ts, hlexes, hparses⟩ := h
  refine ⟨_, ?_, hparses.cast type⟩
  have hcast : Opens "CAST(" [.word "CAST", .symbol .openParen] := rfl
  have has : Opens " AS " [.word "AS"] := rfl
  have htype : Lexes (type.name ++ ")") [.word type.name, .symbol .closeParen] := by
    cases type <;> exact ⟨_, _, _, rfl, rfl, rfl⟩
  simp only [String.append_assoc]
  exact hcast.append (hlexes.glue has rfl htype)

theorem countDistinct (h : Reads m a e) : Reads k ("count(DISTINCT " ++ a ++ ")") (.countDistinct e) := by
  obtain ⟨ts, hlexes, hparses⟩ := h
  refine ⟨_, ?_, hparses.countDistinct⟩
  have hcount : Opens "count(DISTINCT " [.word "count", .symbol .openParen, .word "DISTINCT"] := rfl
  have hclose : Opens ")" [.symbol .closeParen] := rfl
  rw [String.append_assoc]
  exact hcount.append (hlexes.append hclose.lexes rfl)

end Reads

theorem items_of_reads {texts : List String} {es : List Expr} (h : List.Forall₂ (Reads 0) texts es) (hne : texts ≠ []) :
    ∃ ts, Lexes (join ", " texts) ts ∧ ParsesItems ts es := by
  have hcomma : Opens ", " [.symbol .comma] := rfl
  induction h with
  | nil => exact absurd rfl hne
  | @cons a e texts es ha hrest ih =>
    obtain ⟨ts, hlexes, hparses⟩ := ha
    cases hrest with
    | nil => exact ⟨ts, hlexes, .one hparses⟩
    | cons ha' hrest' =>
      obtain ⟨us, hlexes', hparses'⟩ := ih (by simp)
      refine ⟨_, ?_, .cons hparses hparses'⟩
      rw [join, String.append_assoc]
      · exact hlexes.glue hcomma rfl hlexes'
      · simp

structure IsFunction (name : String) : Prop where
  opens : Opens (name ++ "(") [.word name, .symbol .openParen]
  plain : ∀ (read : LevelReader) (rest : List Token),
    readPlainWord read name (.symbol .openParen :: rest) = readCall read name rest

namespace Reads

variable {k m : Nat} {a : String} {e : Expr} {texts : List String} {es : List Expr}

theorem call {name : String} (hname : IsFunction name) (h : List.Forall₂ (Reads 0) texts es) (hne : texts ≠ []) :
    Reads k (name ++ "(" ++ join ", " texts ++ ")") (.call name es) := by
  obtain ⟨ts, hlexes, hitems⟩ := items_of_reads h hne
  refine ⟨_, ?_, .call hname.plain hitems⟩
  have hclose : Opens ")" [.symbol .closeParen] := rfl
  rw [String.append_assoc]
  exact hname.opens.append (hlexes.append hclose.lexes rfl)

theorem args (h : List.Forall₂ (Reads 0) texts es) :
    ∃ ts, Lexes (join ", " texts ++ ")") (ts ++ [.symbol .closeParen]) ∧ ParsesArgs ts es := by
  have hclose : Opens ")" [.symbol .closeParen] := rfl
  cases h with
  | nil => exact ⟨[], hclose.lexes, parsesArgs_nil⟩
  | cons ha hrest =>
    obtain ⟨ts, hlexes, hitems⟩ := items_of_reads (.cons ha hrest) (by simp)
    exact ⟨ts, hlexes.append hclose.lexes rfl, hitems.args⟩

theorem inList (ha : Reads m a e) (h : List.Forall₂ (Reads 0) texts es) (hm : comparisonLevel ≤ m) :
    Reads comparisonLevel (a ++ " IN (" ++ join ", " texts ++ ")") (.inList e es false) := by
  obtain ⟨ts, hlexes, hparses⟩ := ha
  obtain ⟨us, hlexes', hargs⟩ := args h
  refine ⟨_, ?_, hparses.inList hargs hm⟩
  have hin : Opens " IN (" [.word "IN", .symbol .openParen] := rfl
  rw [String.append_assoc, String.append_assoc]
  exact hlexes.glue hin rfl hlexes'

theorem notInList (ha : Reads m a e) (h : List.Forall₂ (Reads 0) texts es) (hm : comparisonLevel ≤ m) :
    Reads k ("(" ++ a ++ " NOT IN (" ++ join ", " texts ++ "))") (.inList e es true) := by
  obtain ⟨ts, hlexes, hparses⟩ := ha
  obtain ⟨us, hlexes', hargs⟩ := args h
  have hin : Opens " NOT IN (" [.word "NOT", .word "IN", .symbol .openParen] := rfl
  have hreads : Reads comparisonLevel (a ++ (" NOT IN (" ++ (join ", " texts ++ ")"))) (.inList e es true) :=
    ⟨_, hlexes.glue hin rfl hlexes', hparses.notInList hargs hm⟩
  have htext : "(" ++ a ++ " NOT IN (" ++ join ", " texts ++ "))" =
      "(" ++ (a ++ (" NOT IN (" ++ (join ", " texts ++ ")"))) ++ ")" := by
    have hclose : "))" = ")" ++ ")" := rfl
    rw [hclose]
    simp only [String.append_assoc]
  rw [htext]
  exact hreads.paren

end Reads

def whenTexts (branches : List (String × String)) : List String :=
  branches.map fun (condition, value) => " WHEN " ++ condition ++ " THEN " ++ value

theorem whens_of_reads {branches : List (String × String)} {whens : List (Expr × Expr)}
    (h : List.Forall₂ (fun s w => Reads 0 s.1 w.1 ∧ Reads 0 s.2 w.2) branches whens) :
    ∃ ts, ParsesWhens ts whens ∧ ∀ (tail : String) (us : List Token), Lexes tail us → Breaks tail →
      Lexes (String.join (whenTexts branches) ++ tail) (ts ++ us) ∧
      Breaks (String.join (whenTexts branches) ++ tail) := by
  have hwhen : Opens " WHEN " [.word "WHEN"] := rfl
  have hthen : Opens " THEN " [.word "THEN"] := rfl
  induction h with
  | nil => exact ⟨[], .nil, fun tail us hlexes hbreaks => by simpa [whenTexts] using ⟨hlexes, hbreaks⟩⟩
  | @cons s w branches whens hs _ ih =>
    obtain ⟨ts, hlexes, hparses⟩ := hs.1
    obtain ⟨us, hlexes', hparses'⟩ := hs.2
    obtain ⟨vs, hwhens, htail⟩ := ih
    refine ⟨_, .cons hparses hparses' hwhens, fun tail ws hws hbreaks => ?_⟩
    obtain ⟨hrest, hrestBreaks⟩ := htail tail ws hws hbreaks
    have htext : String.join (whenTexts (s :: branches)) ++ tail =
        " WHEN " ++ (s.1 ++ (" THEN " ++ (s.2 ++ (String.join (whenTexts branches) ++ tail)))) := by
      simp [whenTexts, String.join_cons, String.append_assoc]
    rw [htext]
    refine ⟨?_, (show Breaks " WHEN " from rfl).append _⟩
    have hlexed := hwhen.append (hlexes.glue hthen rfl (hlexes'.append hrest hrestBreaks))
    simpa using hlexed

theorem clause_of_reads {word : String} (hword : Opens (" " ++ word ++ " ") [.word word]) {text : Option String}
    {o : Option Expr} (h : Option.Rel (Reads 0) text o) :
    ∃ ts, ParsesClause word ts o ∧ ∀ (tail : String) (us : List Token), Lexes tail us → Breaks tail →
      Lexes (text.elim "" (" " ++ word ++ " " ++ ·) ++ tail) (ts ++ us) ∧
      Breaks (text.elim "" (" " ++ word ++ " " ++ ·) ++ tail) := by
  cases h with
  | none => exact ⟨[], .missing, fun tail us hlexes hbreaks => by simpa using ⟨hlexes, hbreaks⟩⟩
  | @some a e h =>
    obtain ⟨ts, hlexes, hparses⟩ := h
    refine ⟨_, .present hparses, fun tail us hus hbreaks => ?_⟩
    have htext : (some a).elim "" (" " ++ word ++ " " ++ ·) ++ tail = " " ++ word ++ " " ++ (a ++ tail) := by
      simp [String.append_assoc]
    rw [htext]
    refine ⟨hword.append (hlexes.append hus hbreaks), ?_⟩
    rw [String.append_assoc, String.append_assoc]
    exact (show Breaks " " from rfl).append _

/-- A table, perhaps with the name of its database. -/
inductive NamesTable : String → Prop where
  | bare {table} : isTableName table = true → NamesTable table
  | qualified {database table} : isTableName database = true → isBareName table = true →
      NamesTable (database ++ "." ++ table)

theorem isBareName_of_isTableName {name : String} (h : isTableName name = true) : isBareName name = true := by
  simp only [isTableName, Bool.and_eq_true] at h
  exact h.1

theorem NamesTable.readTable_eq {table : String} (h : NamesTable table) :
    ∃ ts, Lexes table ts ∧ ∀ rest : List Token, rest.head? ≠ some (.symbol .dot) →
      readTable (ts ++ rest) = some (table, rest) := by
  cases h with
  | @bare table h =>
    have hbare := isBareName_of_isTableName h
    refine ⟨_, (endsInWord_of_isBareName hbare).lexes, fun rest hrest => ?_⟩
    simp only [List.nil_append, List.cons_append, readTable]
    split
    · next heq =>
      cases heq
      exact absurd rfl hrest
    · next heq =>
      cases heq
      simp [hbare]
    · next hnone => exact absurd rfl (hnone _ _)
  | @qualified database table hdatabase htable =>
    have hbare := isBareName_of_isTableName hdatabase
    refine ⟨_, ((endsInWord_of_isBareName hbare).dot htable).lexes, fun rest _ => ?_⟩
    simp [readTable, hbare, htable]

namespace Reads

variable {k m : Nat}

theorem column {table name : String} (htable : NamesTable table) (hname : isBareName name = true) :
    Reads k (table ++ "." ++ name) (.column table name) := by
  cases htable with
  | bare htable =>
    have hbare := isBareName_of_isTableName htable
    exact ⟨_, ((endsInWord_of_isBareName hbare).dot hname).lexes, .column htable hname⟩
  | qualified hdatabase htable =>
    have hbare := isBareName_of_isTableName hdatabase
    exact ⟨_, (((endsInWord_of_isBareName hbare).dot htable).dot hname).lexes, .qualifiedColumn hdatabase htable hname⟩

theorem case {branches : List (String × String)} {whens : List (Expr × Expr)} (hne : whens ≠ [])
    (hwhens : List.Forall₂ (fun s w => Reads 0 s.1 w.1 ∧ Reads 0 s.2 w.2) branches whens) {text : Option String}
    {otherwise : Option Expr} (helse : Option.Rel (Reads 0) text otherwise) :
    Reads k ("CASE" ++ String.join (whenTexts branches) ++ text.elim "" (" ELSE " ++ ·) ++ " END")
      (.case whens otherwise) := by
  obtain ⟨ts, hparses, hlexes⟩ := whens_of_reads hwhens
  obtain ⟨us, hparses', hlexes'⟩ := clause_of_reads (show Opens (" " ++ "ELSE" ++ " ") [.word "ELSE"] from rfl) helse
  refine ⟨_, ?_, .case hne hparses hparses'⟩
  have hcase : Lexes "CASE" [.word "CASE"] := ⟨_, _, _, rfl, rfl, rfl⟩
  have hend : Lexes " END" [.word "END"] := ⟨_, _, _, rfl, rfl, rfl⟩
  obtain ⟨hrest, hbreaks⟩ := hlexes' " END" _ hend rfl
  obtain ⟨hrest, hbreaks⟩ := hlexes _ _ hrest hbreaks
  simp only [String.append_assoc]
  exact hcase.append hrest hbreaks

theorem select {a table : String} {e : Expr} (h : Reads 0 a e) (htable : NamesTable table) {text : Option String}
    {condition : Option Expr} (hcondition : Option.Rel (Reads 0) text condition) :
    Reads k ("(SELECT " ++ a ++ " FROM " ++ table ++ text.elim "" (" WHERE " ++ ·) ++ ")")
      (.select e table condition) := by
  obtain ⟨ts, hlexes, hparses⟩ := h
  obtain ⟨us, htableLexes, hread⟩ := htable.readTable_eq
  obtain ⟨vs, hparses', hclause⟩ :=
    clause_of_reads (show Opens (" " ++ "WHERE" ++ " ") [.word "WHERE"] from rfl) hcondition
  refine ⟨_, ?_, .select hparses hread hparses'⟩
  have hselect : Opens "(SELECT " [.symbol .openParen, .word "SELECT"] := rfl
  have hfrom : Opens " FROM " [.word "FROM"] := rfl
  have hclose : Opens ")" [.symbol .closeParen] := rfl
  obtain ⟨hrest, hbreaks⟩ := hclause ")" _ hclose.lexes rfl
  simp only [String.append_assoc]
  exact hselect.append (hlexes.glue hfrom rfl (htableLexes.append hrest hbreaks))

theorem text (s : String) : Reads k (quoteText s) (.literal (.text s)) := ⟨_, lexes_quoteText s, .text s⟩

theorem null : Reads k "NULL" (.literal .null) := ⟨_, ⟨_, _, _, rfl, rfl, rfl⟩, .null⟩

theorem bool (b : Bool) : Reads k (if b then "true" else "false") (.literal (.bool b)) := by
  refine ⟨_, ?_, .bool b⟩
  cases b <;> exact ⟨_, _, _, rfl, rfl, rfl⟩

end Reads

end ShelfQuery.Sql.Reader
