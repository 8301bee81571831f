import ShelfQuery.Proofs.Schema.Names
import ShelfQuery.Proofs.Sql.LiteralTexts
import ShelfQuery.Proofs.Sql.Shape

set_option autoImplicit false

/-!
# Conditions filled in later

A total ends where a parenthesis closes right after FROM and a name, and nothing else in the text of a tree does
outside of quotes. So conditions can be filled in the text.
-/

namespace ShelfQuery.Sql

open ShelfQuery.Schema ShelfQuery.Text ShelfQuery.Number

/-- Whether a text, given backwards, ends with FROM and a name. -/
def afterFrom (back : List Char) : Bool := " MORF ".toList.isPrefixOf (back.dropWhile isNameChar)

/-- Writes a clause at the end of every total. `back` is what was read before, backwards, and `inside` tells
whether it ends inside of quotes. -/
def fill (clause : List Char) : (inside : Bool) → (back : List Char) → List Char → List Char
  | _, _, [] => []
  | true, back, c :: rest => c :: fill clause (c != '\'') (c :: back) rest
  | false, back, c :: rest =>
    (if c == ')' && afterFrom back then clause else []) ++ c :: fill clause (c == '\'') (c :: back) rest

theorem fill_quote (clause back rest : List Char) :
    fill clause false back ('\'' :: rest) = '\'' :: fill clause true ('\'' :: back) rest := rfl

theorem fill_unquote (clause back rest : List Char) :
    fill clause true back ('\'' :: rest) = '\'' :: fill clause false ('\'' :: back) rest := rfl

/-- A quote inside of a text is doubled, so the text does not end there. -/
theorem fill_doubled (clause cs back rest : List Char) :
    fill clause true back (doubled cs ++ rest) = doubled cs ++ fill clause true ((doubled cs).reverse ++ back) rest := by
  induction cs generalizing back with
  | nil => rfl
  | cons c cs ih =>
    by_cases hc : c = '\''
    · have hcons : doubled (c :: cs) = '\'' :: '\'' :: doubled cs := by simp [doubled, hc]
      rw [hcons, List.cons_append, List.cons_append, fill_unquote, fill_quote, ih]
      simp
    · have hcons : doubled (c :: cs) = c :: doubled cs := by simp [doubled, hc]
      rw [hcons, List.cons_append, fill, bne_iff_ne.mpr hc, ih]
      simp

/-- Whether a text, given backwards, ends with FROM and a name or with the word FROM itself. -/
def endsFrom (back : List Char) : Bool := afterFrom back || "MORF ".toList.isPrefixOf back

/-- After any text that ends otherwise than `endsFrom` says, and before any other text, `a` is filled to `b`. It does not
end like that either. -/
structure Fills (clause a b : String) : Prop where
  filled : ∀ back rest, endsFrom back = false →
    fill clause.toList false back (a.toList ++ rest) =
      b.toList ++ fill clause.toList false (a.toList.reverse ++ back) rest
  ends : ∀ back, endsFrom back = false → endsFrom (a.toList.reverse ++ back) = false

theorem afterFrom_of_endsFrom {back : List Char} (h : endsFrom back = false) : afterFrom back = false :=
  (Bool.or_eq_false_iff.mp h).1

def IsSolid (cs : List Char) : Prop := ∀ c ∈ cs, c ≠ ')' ∧ c ≠ '\'' ∧ c ≠ ' '

theorem fill_solid {cs : List Char} (h : IsSolid cs) (clause back rest : List Char) :
    fill clause false back (cs ++ rest) = cs ++ fill clause false (cs.reverse ++ back) rest := by
  induction cs generalizing back with
  | nil => rfl
  | cons c cs ih =>
    obtain ⟨hparen, hquote, -⟩ := h c (.head _)
    rw [List.cons_append, fill, beq_false_of_ne hparen, beq_false_of_ne hquote, ih fun d hd => h d (.tail _ hd)]
    simp

theorem afterFrom_cons {c : Char} (h : c ≠ ' ') (back : List Char) :
    afterFrom (c :: back) = if isNameChar c then afterFrom back else false := by
  unfold afterFrom
  rw [List.dropWhile_cons]
  split
  · rfl
  · have hblank : (' ' == c) = false := beq_false_of_ne (Ne.symm h)
    change (' ' == c && _) = false
    rw [hblank, Bool.false_and]

theorem afterFrom_solid {cs : List Char} (h : ∀ c ∈ cs, c ≠ ' ') {back : List Char} (hback : afterFrom back = false) :
    afterFrom (cs ++ back) = false := by
  induction cs with
  | nil => exact hback
  | cons c cs ih =>
    rw [List.cons_append, afterFrom_cons (h c (.head _)), ih fun d hd => h d (.tail _ hd)]
    split <;> rfl

namespace Fills

variable {clause a b c d : String}

theorem fill_eq (h : Fills clause a b) : fill clause.toList false [] a.toList = b.toList := by
  have hfilled := h.filled [] [] rfl
  rwa [List.append_nil, fill, List.append_nil] at hfilled

theorem append (hab : Fills clause a b) (hcd : Fills clause c d) : Fills clause (a ++ c) (b ++ d) where
  filled back rest hback := by
    simp only [String.toList_append, List.append_assoc, List.reverse_append]
    rw [hab.filled back _ hback, hcd.filled _ rest (hab.ends back hback)]
  ends back hback := by
    rw [String.toList_append, List.reverse_append, List.append_assoc]
    exact hcd.ends _ (hab.ends back hback)

theorem empty : Fills clause "" "" := ⟨fun _ _ _ => rfl, fun _ hback => hback⟩

theorem paren : Fills clause ")" ")" where
  filled back rest hback := by
    change (if true && afterFrom back then clause.toList else []) ++ ')' :: _ = _
    rw [afterFrom_of_endsFrom hback]
    rfl
  ends _ _ := rfl

theorem word (hsolid : IsSolid a.toList) (hlast : ∀ c ∈ a.toList, c ≠ 'M') : Fills clause a a where
  filled back rest _ := fill_solid hsolid clause.toList back rest
  ends back hback := by
    have hword : "MORF ".toList.isPrefixOf (a.toList.reverse ++ back) = false := by
      cases hchars : a.toList.reverse with
      | nil => exact (Bool.or_eq_false_iff.mp hback).2
      | cons c cs =>
        have hc : ('M' == c) = false := by
          refine beq_false_of_ne (Ne.symm (hlast c (List.mem_reverse.mp ?_)))
          rw [hchars]
          exact .head _
        change ('M' == c && _) = false
        rw [hc, Bool.false_and]
    rw [endsFrom, hword, Bool.or_false]
    exact afterFrom_solid (fun c hc => (hsolid c (List.mem_reverse.mp hc)).2.2) (afterFrom_of_endsFrom hback)

theorem keyword (h : (a.toList.all fun c => c != ')' && c != '\'' && c != ' ' && c != 'M') = true) : Fills clause a a := by
  have hchars := List.all_eq_true.mp h
  simp only [Bool.and_eq_true, bne_iff_ne] at hchars
  apply word
  · intro c hc
    obtain ⟨⟨⟨hparen, hquote⟩, hblank⟩, -⟩ := hchars c hc
    exact ⟨hparen, hquote, hblank⟩
  · intro c hc
    exact (hchars c hc).2

theorem plain (h : IsPlain a) : Fills clause a a := by
  refine word (fun c hc => ⟨?_, ?_, ?_⟩) fun c hc => ?_ <;> exact ne_of_isPlainChar (h c hc) rfl

theorem quoted (s : String) : Fills clause (quoteText s) (quoteText s) where
  filled back rest _ := by
    rw [quoteText_toList, List.cons_append, List.append_assoc, fill_quote, fill_doubled, List.singleton_append, fill_unquote]
    simp
  ends back _ := by
    rw [quoteText_toList, List.reverse_cons, List.reverse_append]
    rfl

theorem literal (l : Literal) : Fills clause l.render l.render := by
  rcases l.render_cases with hplain | ⟨s, hs⟩
  · exact plain hplain
  · rw [hs]
    exact quoted s

theorem join {α : Type} {sep : String} {items : List α} {f g : α → String} (hsep : Fills clause sep sep)
    (h : ∀ x ∈ items, Fills clause (f x) (g x)) :
    Fills clause (Text.join sep (items.map f)) (Text.join sep (items.map g)) := by
  induction items with
  | nil => exact empty
  | cons x rest ih =>
    have hx := h x (.head _)
    cases rest with
    | nil => exact hx
    | cons y rest => exact (hx.append hsep).append (ih fun z hz => h z (.tail _ hz))

end Fills

def Refills (s : Setting) (x : Sql) : Prop := Fills s.clause (x.render ⟨s.dialect, []⟩) (x.render s)

namespace Refills

variable {items : List Sql} {name table : String}

variable {s : Setting} {x y z : Sql}

theorem guarded (h : Refills s x) (parent : Nat) (strict : Bool) :
    Fills s.clause (guard x parent strict (x.render ⟨s.dialect, []⟩)) (guard x parent strict (x.render s)) := by
  have hopen : Fills s.clause "(" "(" := ⟨fun _ _ _ => rfl, fun _ _ => rfl⟩
  unfold guard
  split
  · exact (hopen.append h).append .paren
  · exact h

theorem comma : Fills s.clause ", " ", " := ⟨fun _ _ _ => rfl, fun _ _ => rfl⟩

theorem listed (h : ∀ x ∈ items, Refills s x) :
    Fills s.clause (Text.join ", " (renderAll ⟨s.dialect, []⟩ items)) (Text.join ", " (renderAll s items)) := by
  rw [Sql.renderAll_eq, Sql.renderAll_eq]
  exact .join comma h

theorem joined {sep : String} (hsep : Fills s.clause sep sep) (parent : Nat) (h : ∀ x ∈ items, Refills s x) :
    Fills s.clause (Text.join sep (renderGuarded ⟨s.dialect, []⟩ parent items))
      (Text.join sep (renderGuarded s parent items)) := by
  rw [Sql.renderGuarded_eq, Sql.renderGuarded_eq]
  exact .join hsep fun x hx => (h x hx).guarded parent false

theorem arith (op : ArithOp) (hx : Refills s x) (hy : Refills s y) : Refills s (.arith op x y) := by
  have hop : Fills s.clause (" " ++ op.symbol ++ " ") (" " ++ op.symbol ++ " ") := by
    cases op <;> exact ⟨fun _ _ _ => rfl, fun _ _ => rfl⟩
  have htext := ((hx.guarded op.precedence false).append hop).append (hy.guarded op.precedence (op == .sub || op == .div))
  simp only [← String.append_assoc] at htext
  exact htext

theorem compare (op : CompareOp) (hx : Refills s x) (hy : Refills s y) : Refills s (.compare op x y) := by
  have hop : Fills s.clause (" " ++ op.symbol ++ " ") (" " ++ op.symbol ++ " ") := by
    cases op <;> exact ⟨fun _ _ _ => rfl, fun _ _ => rfl⟩
  have htext := ((hx.guarded 5 true).append hop).append (hy.guarded 5 true)
  simp only [← String.append_assoc] at htext
  exact htext

theorem and (h : ∀ x ∈ items, Refills s x) : Refills s (.and items) :=
  joined ⟨fun _ _ _ => rfl, fun _ _ => rfl⟩ 3 h

theorem or (h : ∀ x ∈ items, Refills s x) : Refills s (.or items) :=
  joined ⟨fun _ _ _ => rfl, fun _ _ => rfl⟩ 2 h

theorem not (h : Refills s x) : Refills s (.not x) := by
  have hnot : Fills s.clause "NOT " "NOT " := ⟨fun _ _ _ => rfl, fun _ _ => rfl⟩
  exact hnot.append (h.guarded atomic false)

theorem neg (h : Refills s x) : Refills s (.neg x) := by
  have hminus : Fills s.clause "-" "-" := ⟨fun _ _ _ => rfl, fun _ _ => rfl⟩
  exact hminus.append (h.guarded atomic false)

theorem isNull (negated : Bool) (h : Refills s x) : Refills s (.isNull x negated) := by
  have hnull : Fills s.clause (" IS " ++ (if negated then "NOT " else "") ++ "NULL")
      (" IS " ++ (if negated then "NOT " else "") ++ "NULL") := by
    cases negated <;> exact ⟨fun _ _ _ => rfl, fun _ _ => rfl⟩
  have htext := (h.guarded 5 true).append hnull
  simp only [← String.append_assoc] at htext
  exact htext

theorem between (hx : Refills s x) (hy : Refills s y) (hz : Refills s z) : Refills s (.between x y z) := by
  have hbetween : Fills s.clause " BETWEEN " " BETWEEN " := ⟨fun _ _ _ => rfl, fun _ _ => rfl⟩
  have hand : Fills s.clause " AND " " AND " := ⟨fun _ _ _ => rfl, fun _ _ => rfl⟩
  exact ((((hx.guarded 5 true).append hbetween).append (hy.guarded 5 true)).append hand).append (hz.guarded 5 true)

theorem inList (negated : Bool) (hx : Refills s x) (hitems : ∀ y ∈ items, Refills s y) :
    Refills s (.inList x items negated) := by
  cases negated with
  | true =>
    have hopen : Fills s.clause "(" "(" := ⟨fun _ _ _ => rfl, fun _ _ => rfl⟩
    have hin : Fills s.clause " NOT IN (" " NOT IN (" := ⟨fun _ _ _ => rfl, fun _ _ => rfl⟩
    have hclose : Fills s.clause "))" "))" := Fills.paren.append .paren
    exact (((hopen.append (hx.guarded 5 true)).append hin).append (listed hitems)).append hclose
  | false =>
    have hin : Fills s.clause " IN (" " IN (" := ⟨fun _ _ _ => rfl, fun _ _ => rfl⟩
    exact (((hx.guarded 5 true).append hin).append (listed hitems)).append .paren

theorem isSolid_name (h : isIdentifier name = true) : IsSolid name.toList := by
  intro c hc
  have hchar := isNameChar_of_isIdentifier h c hc
  refine ⟨?_, ?_, ?_⟩ <;> (rintro rfl; cases hchar)

/-- The name of a column comes after a point, so it can be FROM. -/
theorem column (htable : isIdentifier table = true) (hname : isIdentifier name = true) :
    Refills s (.column table name) := by
  have hchars : (table ++ "." ++ name).toList = table.toList ++ '.' :: name.toList := by simp
  have hsolid : IsSolid (table ++ "." ++ name).toList := by
    intro c hc
    rw [hchars, List.mem_append, List.mem_cons] at hc
    rcases hc with hc | rfl | hc
    · exact isSolid_name htable c hc
    · decide
    · exact isSolid_name hname c hc
  have hblank (c : Char) (hc : c ∈ name.toList.reverse) : c ≠ ' ' := (isSolid_name hname c (List.mem_reverse.mp hc)).2.2
  refine ⟨fun back rest _ => fill_solid hsolid _ back rest, fun back _ => ?_⟩
  have hback : (table ++ "." ++ name).toList.reverse ++ back = name.toList.reverse ++ '.' :: (table.toList.reverse ++ back) := by
    simp [hchars]
  change endsFrom ((table ++ "." ++ name).toList.reverse ++ back) = false
  rw [hback, endsFrom, afterFrom_solid hblank rfl, Bool.false_or, Bool.eq_false_iff]
  intro hprefix
  -- the point is no letter of FROM, so all of the word would belong to the name
  have hpoint : name.toList.reverse ++ ['.'] <+: name.toList.reverse ++ '.' :: (table.toList.reverse ++ back) :=
    ⟨table.toList.reverse ++ back, by simp⟩
  rcases List.prefix_or_prefix_of_prefix (List.isPrefixOf_iff_prefix.mp hprefix) hpoint with hword | hword
  · have hmem := hword.subset (show ' ' ∈ "MORF ".toList by decide)
    rcases List.mem_append.mp hmem with hmem | hmem
    · exact hblank ' ' hmem rfl
    · exact absurd hmem (by decide)
  · exact absurd (hword.subset (List.mem_append_right _ (List.mem_singleton_self '.'))) (by decide)

theorem cast (type : CastType) (h : Refills s x) : Refills s (.cast x type) := by
  have hopen : Fills s.clause "CAST(" "CAST(" := ⟨fun _ _ _ => rfl, fun _ _ => rfl⟩
  have hclose : Fills s.clause (" AS " ++ type.name ++ ")") (" AS " ++ type.name ++ ")") := by
    cases type <;> exact ⟨fun _ _ _ => rfl, fun _ _ => rfl⟩
  have htext := (hopen.append h).append hclose
  simp only [← String.append_assoc] at htext
  exact htext

theorem func (hname : isIdentifier name = true) {args : List Sql} (h : ∀ x ∈ args, Refills s x) :
    Refills s (.func name args) := by
  have hopen : Fills s.clause (name ++ "(") (name ++ "(") := by
    refine ⟨fun back rest _ => ?_, fun back _ => ?_⟩
    · rw [String.toList_append, List.append_assoc, fill_solid (isSolid_name hname), List.append_assoc, List.reverse_append]
      rfl
    · rw [String.toList_append, List.reverse_append]
      rfl
  exact (hopen.append (listed h)).append .paren

theorem countAll : Refills s (.func "count" [.star]) := by
  have hstar : Fills s.clause "*" "*" := ⟨fun _ _ _ => rfl, fun _ _ => rfl⟩
  exact func rfl (List.forall_mem_singleton.mpr hstar)

theorem countDistinct (h : Refills s x) : Refills s (.countDistinct x) := by
  have hopen : Fills s.clause "count(DISTINCT " "count(DISTINCT " := ⟨fun _ _ _ => rfl, fun _ _ => rfl⟩
  exact (hopen.append (h.guarded atomic false)).append .paren

theorem percentile (n : Nat) (h : Refills s x) : Refills s (.percentile n x) := by
  have hgroup : Fills s.clause " WITHIN GROUP (ORDER BY " " WITHIN GROUP (ORDER BY " :=
    ⟨fun _ _ _ => rfl, fun _ _ => rfl⟩
  have hgroup : Fills s.clause ") WITHIN GROUP (ORDER BY " ") WITHIN GROUP (ORDER BY " :=
    .append .paren hgroup
  have hcont : Fills s.clause "percentile_cont(" "percentile_cont(" := ⟨fun _ _ _ => rfl, fun _ _ => rfl⟩
  have hnumber : Fills s.clause _ _ := .plain (isPlain_float (Binary64.ofRatio false n 100))
  obtain ⟨dialect, filters⟩ := s
  cases dialect with
  | bigquery =>
    have hopen : Fills (Setting.mk .bigquery filters).clause "approx_quantiles(" "approx_quantiles(" :=
      ⟨fun _ _ _ => rfl, fun _ _ => rfl⟩
    have hoffset : Fills (Setting.mk .bigquery filters).clause ", 100)[OFFSET(" ", 100)[OFFSET(" :=
      ⟨fun _ _ _ => rfl, fun _ _ => rfl⟩
    have hbracket : Fills (Setting.mk .bigquery filters).clause "]" "]" := ⟨fun _ _ _ => rfl, fun _ _ => rfl⟩
    have hclose : Fills (Setting.mk .bigquery filters).clause ")]" ")]" :=
      .append .paren hbracket
    exact (((hopen.append h).append hoffset).append (.plain (isPlain_int n))).append hclose
  | _ => exact (((hcont.append hnumber).append hgroup).append h).append .paren

theorem fills_renderTrunc {clause a b : String} (h : Fills clause a b) (unit : TruncUnit) (datetime : Bool)
    (dialect : Dialect) : Fills clause (renderTrunc unit a datetime dialect) (renderTrunc unit b datetime dialect) := by
  cases dialect with
  | postgresql =>
    have hopen : Fills clause ("date_trunc('" ++ unit.name ++ "', ") ("date_trunc('" ++ unit.name ++ "', ") := by
      cases unit <;> exact ⟨fun _ _ _ => rfl, fun _ _ => rfl⟩
    exact (hopen.append h).append .paren
  | bigquery =>
    have hcomma : Fills clause ", " ", " := ⟨fun _ _ _ => rfl, fun _ _ => rfl⟩
    have hpart : Fills clause (if unit = .week then "week(monday)" else unit.name)
        (if unit = .week then "week(monday)" else unit.name) := by
      cases unit with
      | week => exact ⟨fun _ _ _ => rfl, fun _ _ => rfl⟩
      | _ => exact .keyword rfl
    cases datetime with
    | true =>
      have hopen : Fills clause "datetime(timestamp_trunc(" "datetime(timestamp_trunc(" :=
        ⟨fun _ _ _ => rfl, fun _ _ => rfl⟩
      exact (((hopen.append h).append hcomma).append hpart).append (c := "))") (Fills.paren.append .paren)
    | false =>
      have hopen : Fills clause "date_trunc(" "date_trunc(" := ⟨fun _ _ _ => rfl, fun _ _ => rfl⟩
      exact (((hopen.append h).append hcomma).append hpart).append .paren
  | sqlite =>
    have hdate : Fills clause "date(" "date(" := ⟨fun _ _ _ => rfl, fun _ _ => rfl⟩
    have hcall := hdate.append h
    cases unit with
    | year => exact hcall.append (c := ", 'start of year')") ⟨fun _ _ _ => rfl, fun _ _ => rfl⟩
    | month => exact hcall.append (c := ", 'start of month')") ⟨fun _ _ _ => rfl, fun _ _ => rfl⟩
    | day => exact hcall.append .paren
    | week => exact hcall.append (c := ", '-6 days', 'weekday 1')") ⟨fun _ _ _ => rfl, fun _ _ => rfl⟩
    | quarter =>
      have hmiddle : Fills clause ", 'start of month', printf('-%d months', (CAST(strftime('%m', "
          ", 'start of month', printf('-%d months', (CAST(strftime('%m', " := ⟨fun _ _ _ => rfl, fun _ _ => rfl⟩
      have htype : Fills clause " AS INTEGER) - 1) % 3))" " AS INTEGER) - 1) % 3))" :=
        ⟨fun _ _ _ => rfl, fun _ _ => rfl⟩
      have hclose : Fills clause ") AS INTEGER) - 1) % 3))" ") AS INTEGER) - 1) % 3))" :=
        .append .paren htype
      exact ((hcall.append hmiddle).append h).append hclose

theorem dateTrunc (unit : TruncUnit) (datetime : Bool) (h : Refills s x) : Refills s (.dateTrunc unit x datetime) :=
  fills_renderTrunc h unit datetime s.dialect

theorem whens {whens : List (Sql × Sql)} (hconditions : ∀ w ∈ whens, Refills s w.1) (hvalues : ∀ w ∈ whens, Refills s w.2) :
    Fills s.clause (String.join (renderWhens ⟨s.dialect, []⟩ whens)) (String.join (renderWhens s whens)) := by
  induction whens with
  | nil => exact .empty
  | cons w rest ih =>
    obtain ⟨condition, value⟩ := w
    have hrest := ih (fun w hw => hconditions w (.tail _ hw)) fun w hw => hvalues w (.tail _ hw)
    have hwhen : Fills s.clause " WHEN " " WHEN " := ⟨fun _ _ _ => rfl, fun _ _ => rfl⟩
    have hthen : Fills s.clause " THEN " " THEN " := ⟨fun _ _ _ => rfl, fun _ _ => rfl⟩
    have hfirst := ((hwhen.append ((hconditions _ (.head _)).guarded atomic false)).append hthen).append (hvalues _ (.head _))
    rw [renderWhens, renderWhens, String.join_cons, String.join_cons]
    exact hfirst.append hrest

theorem case {whens : List (Sql × Sql)} {otherwise : Option Sql} (hconditions : ∀ w ∈ whens, Refills s w.1)
    (hvalues : ∀ w ∈ whens, Refills s w.2) (hotherwise : ∀ x, otherwise = some x → Refills s x) :
    Refills s (.case whens otherwise) := by
  have hcase : Fills s.clause "CASE" "CASE" := .keyword rfl
  have hend : Fills s.clause " END" " END" := by
    refine ⟨fun _ _ _ => rfl, fun back hback => ?_⟩
    change ("MORF ".toList.isPrefixOf back || false) = false
    rw [Bool.or_false]
    exact (Bool.or_eq_false_iff.mp hback).2
  have helse : Fills s.clause (renderElse ⟨s.dialect, []⟩ otherwise) (renderElse s otherwise) := by
    cases otherwise with
    | none => exact .empty
    | some x =>
      have hword : Fills s.clause " ELSE " " ELSE " := ⟨fun _ _ _ => rfl, fun _ _ => rfl⟩
      exact hword.append (hotherwise x rfl)
  exact ((hcase.append (Refills.whens hconditions hvalues)).append helse).append hend

theorem afterFrom_name {cs : List Char} (h : ∀ c ∈ cs, isNameChar c = true) (back : List Char) :
    afterFrom (cs ++ (" MORF ".toList ++ back)) = true := by
  unfold afterFrom
  rw [List.dropWhile_append_of_pos h]
  rfl

theorem fills_from (htable : isIdentifier table = true) (clause : String) :
    Fills clause (" FROM " ++ table ++ ")") (" FROM " ++ table ++ clause ++ ")") := by
  have hchars : (" FROM " ++ table ++ ")").toList = " FROM ".toList ++ (table.toList ++ [')']) := by simp
  refine ⟨fun back rest _ => ?_, fun back _ => ?_⟩
  · have hname := afterFrom_name (fun c hc => isNameChar_of_isIdentifier htable c (List.mem_reverse.mp hc)) back
    have hfrom (r : List Char) : fill clause.toList false back (" FROM ".toList ++ r) =
        " FROM ".toList ++ fill clause.toList false (" MORF ".toList ++ back) r := rfl
    have hclose (back r : List Char) (hback : afterFrom back = true) :
        fill clause.toList false back ([')'] ++ r) = clause.toList ++ ')' :: fill clause.toList false (')' :: back) r := by
      change (if true && afterFrom back then clause.toList else []) ++ ')' :: _ = _
      rw [hback]
      rfl
    rw [hchars, List.append_assoc, hfrom, List.append_assoc, fill_solid (isSolid_name htable), hclose _ _ hname]
    simp
  · rw [hchars, List.reverse_append, List.reverse_append]
    rfl

theorem total (htable : isIdentifier table = true) (h : Refills s x) : Refills s (.total table x) := by
  have hopen : Fills s.clause "(SELECT " "(SELECT " := ⟨fun _ _ _ => rfl, fun _ _ => rfl⟩
  have htext := (hopen.append h).append (fills_from htable s.clause)
  have hplain : (Sql.total table x).render ⟨s.dialect, []⟩ =
      "(SELECT " ++ x.render ⟨s.dialect, []⟩ ++ (" FROM " ++ table ++ ")") := by
    change "(SELECT " ++ x.render ⟨s.dialect, []⟩ ++ " FROM " ++ table ++ "" ++ ")" = _
    simp only [String.append_assoc, String.empty_append]
  have hfinal : (Sql.total table x).render s = "(SELECT " ++ x.render s ++ (" FROM " ++ table ++ s.clause ++ ")") := by
    change "(SELECT " ++ x.render s ++ " FROM " ++ table ++ s.clause ++ ")" = _
    simp only [String.append_assoc]
  rw [Refills, hplain, hfinal]
  exact htext

end Refills

theorem Refills.passesUp {schema : Table} (htable : isIdentifier schema.name = true) (s : Setting) :
    Sql.PassesUp schema (Refills s) where
  column := .column htable
  literal l := Fills.literal l
  arith := .arith
  neg h _ := .neg h
  compare := .compare
  and := .and
  or := .or
  not := .not
  isNull := .isNull
  inList := .inList
  between := .between
  cast := .cast
  case := .case
  func hname := .func hname
  countAll := .countAll
  countDistinct := .countDistinct
  percentile := .percentile
  dateTrunc := .dateTrunc
  total := .total htable

/-- Conditions that read the same without the clause of totals read the same with it. -/
theorem renderConjunct_eq_of_plain {schema : Table} (htable : isIdentifier schema.name = true) {x y : Sql}
    (hx : x.WellTyped schema .any) (hy : y.WellTyped schema .any) (s : Setting)
    (h : x.renderConjunct ⟨s.dialect, []⟩ = y.renderConjunct ⟨s.dialect, []⟩) : x.renderConjunct s = y.renderConjunct s := by
  have hfill {z : Sql} (hz : z.WellTyped schema .any) :
      fill s.clause.toList false [] (z.renderConjunct ⟨s.dialect, []⟩).toList = (z.renderConjunct s).toList :=
    (((Refills.passesUp htable s).of_wellTyped hz).guarded 3 false).fill_eq
  exact String.toList_inj.mp ((hfill hx).symm.trans (h ▸ hfill hy))

end ShelfQuery.Sql
