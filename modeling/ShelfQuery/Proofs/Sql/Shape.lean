import ShelfQuery.Proofs.Schema.Names
import ShelfQuery.Proofs.Sql.Occurrence
import ShelfQuery.Proofs.Sql.Quoting
import ShelfQuery.Proofs.Sql.Reader.Numbers
import ShelfQuery.Proofs.Sql.Splitting

set_option autoImplicit false

namespace ShelfQuery.Sql

open ShelfQuery.Schema ShelfQuery.Text ShelfQuery.Number Splitting

/-- The contents of a token that is a quoted text. -/
def content? (token : String) : Option String := unquote '\'' (undouble '\'' false) token

theorem content?_quoteText (s : String) : content? (quoteText s) = some s :=
  unquote_ofList.mpr (undouble_delimited '\'' s.toList)

theorem eq_quoteText_of_content? {token s : String} (h : content? token = some s) : token = quoteText s := by
  unfold content? unquote at h
  split at h
  · cases h
  · next c rest hchars =>
    split at h
    · next hc =>
      obtain ⟨out, hout, rfl⟩ := Option.map_eq_some_iff.mp h
      have hrest : rest = delimited '\'' '\'' out := delimited_of_undouble hout
      rw [hc, hrest] at hchars
      rw [← String.ofList_toList (s := token), hchars, quoteText, String.toList_ofList]
      rfl
    · cases h

def Literal.blank : Literal → Literal
  | .text _ => .text ""
  | .date _ => .text ""
  | .datetime _ => .text ""
  | l => l

def Literal.texts : Literal → List String
  | .text s => [s]
  | .date d => [d.text]
  | .datetime m => [m.text]
  | _ => []

mutual

def mapLiterals (f : Literal → Literal) : Sql → Sql
  | .column table name => .column table name
  | .literal l => .literal (f l)
  | .star => .star
  | .arith op left right => .arith op (left.mapLiterals f) (right.mapLiterals f)
  | .compare op left right => .compare op (left.mapLiterals f) (right.mapLiterals f)
  | .and items => .and (mapAll f items)
  | .or items => .or (mapAll f items)
  | .not arg => .not (arg.mapLiterals f)
  | .neg arg => .neg (arg.mapLiterals f)
  | .isNull arg negated => .isNull (arg.mapLiterals f) negated
  | .inList arg items negated => .inList (arg.mapLiterals f) (mapAll f items) negated
  | .between arg low high => .between (arg.mapLiterals f) (low.mapLiterals f) (high.mapLiterals f)
  | .cast arg type => .cast (arg.mapLiterals f) type
  | .case whens otherwise => .case (mapWhens f whens) (mapElse f otherwise)
  | .func name args => .func name (mapAll f args)
  | .countDistinct arg => .countDistinct (arg.mapLiterals f)
  | .dateTrunc unit arg datetime => .dateTrunc unit (arg.mapLiterals f) datetime
  | .percentile n arg => .percentile n (arg.mapLiterals f)
  | .total table arg => .total table (arg.mapLiterals f)

def mapAll (f : Literal → Literal) : List Sql → List Sql
  | [] => []
  | item :: rest => item.mapLiterals f :: mapAll f rest

def mapWhens (f : Literal → Literal) : List (Sql × Sql) → List (Sql × Sql)
  | [] => []
  | (condition, value) :: rest => (condition.mapLiterals f, value.mapLiterals f) :: mapWhens f rest

def mapElse (f : Literal → Literal) : Option Sql → Option Sql
  | none => none
  | some value => some (value.mapLiterals f)

end

/-- The tree without the contents of its texts and dates. -/
def blank (x : Sql) : Sql := x.mapLiterals Literal.blank

/-- The texts in the truncation of a date whose own are `arg`. -/
def truncTexts (unit : TruncUnit) (arg : List String) : Dialect → List String
  | .postgresql => unit.name :: arg
  | .bigquery => arg
  | .sqlite =>
    match unit with
    | .year => arg ++ ["start of year"]
    | .month => arg ++ ["start of month"]
    | .day => arg
    | .week => arg ++ ["-6 days", "weekday 1"]
    | .quarter => arg ++ ["start of month", "-%d months", "%m"] ++ arg

mutual

/-- The texts and dates that are written for a tree, in order. `conditions` are those of the conditions
that totals repeat. -/
def texts (dialect : Dialect) (conditions : List String) : Sql → List String
  | .column _ _ => []
  | .literal l => l.texts
  | .star => []
  | .arith _ left right => left.texts dialect conditions ++ right.texts dialect conditions
  | .compare _ left right => left.texts dialect conditions ++ right.texts dialect conditions
  | .and items => allTexts dialect conditions items
  | .or items => allTexts dialect conditions items
  | .not arg => arg.texts dialect conditions
  | .neg arg => arg.texts dialect conditions
  | .isNull arg _ => arg.texts dialect conditions
  | .inList arg items _ => arg.texts dialect conditions ++ allTexts dialect conditions items
  | .between arg low high =>
    arg.texts dialect conditions ++ low.texts dialect conditions ++ high.texts dialect conditions
  | .cast arg _ => arg.texts dialect conditions
  | .case whens otherwise => whenTexts dialect conditions whens ++ elseTexts dialect conditions otherwise
  | .func _ args => allTexts dialect conditions args
  | .countDistinct arg => arg.texts dialect conditions
  | .dateTrunc unit arg _ => truncTexts unit (arg.texts dialect conditions) dialect
  | .percentile _ arg => arg.texts dialect conditions
  | .total _ arg => arg.texts dialect conditions ++ conditions

def allTexts (dialect : Dialect) (conditions : List String) : List Sql → List String
  | [] => []
  | item :: rest => item.texts dialect conditions ++ allTexts dialect conditions rest

def whenTexts (dialect : Dialect) (conditions : List String) : List (Sql × Sql) → List String
  | [] => []
  | (condition, value) :: rest =>
    condition.texts dialect conditions ++ value.texts dialect conditions ++ whenTexts dialect conditions rest

def elseTexts (dialect : Dialect) (conditions : List String) : Option Sql → List String
  | none => []
  | some value => value.texts dialect conditions

end

def blankToken (token : String) : String := if (content? token).isSome then quoteText "" else token

/-- Before a break `a` and `b` are split into the same tokens, but for the quoted texts, which hold `xs`
in `a`. -/
def Shaped (a b : String) (xs : List String) : Prop :=
  ∃ ts us, Splits isBreak a ts ∧ Splits isBreak b us ∧ ts.map blankToken = us.map blankToken ∧ ts.filterMap content? = xs

/-- Whatever follows, `text` is split into tokens that hold `xs`. -/
def Fixed (text : String) (xs : List String) : Prop :=
  ∃ ts, Splits (fun _ => true) text ts ∧ ts.filterMap content? = xs

/-- A fixed text that ends whatever stands before it. -/
structure Separates (text : String) (xs : List String) : Prop where
  fixed : Fixed text xs
  breaks : text.toList.head?.any isBreak = true

namespace Shaped

variable {P : Char → Bool} {a b c d sep : String} {ts : List String} {xs ys zs : List String}

theorem of_splits (h : Splits isBreak a ts) (hts : ts.filterMap content? = xs) : Shaped a a xs := ⟨ts, ts, h, h, rfl, hts⟩

theorem empty : Shaped "" "" [] := .of_splits splits_empty rfl

theorem text (s s' : String) : Shaped (quoteText s) (quoteText s') [s] := by
  have hbreak (c : Char) (hc : isBreak c = true) : (c != '\'') = true := by
    rcases isBreak_cases hc with rfl | rfl | rfl <;> rfl
  refine ⟨_, _, (splits_quoteText s).mono hbreak, (splits_quoteText s').mono hbreak, ?_, ?_⟩
  · simp [blankToken, content?_quoteText]
  · simp [content?_quoteText]

theorem append (h : Shaped a b xs) (h' : Shaped c d ys) (hc : Leads isBreak isBreak c) (hd : Leads isBreak isBreak d) :
    Shaped (a ++ c) (b ++ d) (xs ++ ys) := by
  obtain ⟨ts, us, hts, hus, hsame, rfl⟩ := h
  obtain ⟨ts', us', hts', hus', hsame', rfl⟩ := h'
  refine ⟨ts ++ ts', us ++ us', hts.append hts' hc, hus.append hus' hd, ?_, List.filterMap_append⟩
  rw [List.map_append, List.map_append, hsame, hsame']

theorem lead (hsep : Splits P sep ts) (hts : ts.filterMap content? = xs) (h : Shaped a b ys) (ha : Leads P isBreak a)
    (hb : Leads P isBreak b) : Shaped (sep ++ a) (sep ++ b) (xs ++ ys) := by
  obtain ⟨us, vs, hus, hvs, hsame, rfl⟩ := h
  refine ⟨ts ++ us, ts ++ vs, hsep.append hus ha, hsep.append hvs hb, ?_, by rw [List.filterMap_append, hts]⟩
  rw [List.map_append, List.map_append, hsame]

theorem after (hsep : Fixed sep xs) (h : Shaped a b ys) : Shaped (sep ++ a) (sep ++ b) (xs ++ ys) := by
  obtain ⟨ts, hsplits, hts⟩ := hsep
  exact lead hsplits hts h .always .always

theorem glue (h : Shaped a b xs) (hsep : Separates sep ys) (h' : Shaped c d zs) :
    Shaped (a ++ sep ++ c) (b ++ sep ++ d) (xs ++ (ys ++ zs)) := by
  rw [String.append_assoc, String.append_assoc]
  exact h.append (after hsep.fixed h') (.append hsep.breaks) (.append hsep.breaks)

theorem enclose {before behind : String} {ws : List String} (hbefore : Fixed before xs) (h : Shaped a b ys)
    (hbehind : Separates behind zs) (hws : xs ++ (ys ++ zs) = ws) :
    Shaped (before ++ a ++ behind) (before ++ b ++ behind) ws := by
  have hglue := h.glue hbehind empty
  rw [String.append_empty, String.append_empty, List.append_nil] at hglue
  rw [String.append_assoc, String.append_assoc, ← hws]
  exact after hbefore hglue

theorem join {α : Type} {items : List α} {f g : α → String} {xs : α → List String} (hsep : Separates sep [])
    (h : ∀ i ∈ items, Shaped (f i) (g i) (xs i)) :
    Shaped (Text.join sep (items.map f)) (Text.join sep (items.map g)) (items.flatMap xs) := by
  induction items with
  | nil => exact empty
  | cons i rest ih =>
    have hi := h i (List.mem_cons_self ..)
    have hrest := ih fun j hj => h j (List.mem_cons_of_mem _ hj)
    cases rest with
    | nil => simpa [Text.join] using hi
    | cons j rest =>
      have hglue := hi.glue hsep hrest
      exact hglue

end Shaped

theorem content?_eq_none {token : String} {c : Char} {rest : List Char} (h : token.toList = c :: rest) (hc : c ≠ '\'') :
    content? token = none := by
  simp [content?, unquote, h, hc]

theorem content?_name {name : String} (h : isIdentifier name = true) : content? name = none := by
  obtain ⟨c, rest, hname, hc⟩ := isIdentifier_chars h
  refine content?_eq_none hname ?_
  rintro rfl
  exact absurd hc (by decide)

theorem fixed_call {name : String} (h : isIdentifier name = true) : Fixed (name ++ "(") [] := by
  have hparen : Splits (fun _ => true) "(" ["("] := fun _ _ _ => rfl
  refine ⟨[name, "("], (splits_name h).append hparen (.of_head (c := '(') rfl rfl), ?_⟩
  rw [List.filterMap_cons_none (content?_name h)]
  rfl

theorem shaped_name {name : String} (h : isIdentifier name = true) : Shaped name name [] := by
  refine .of_splits ((splits_name h).mono fun c hc => ?_) (List.filterMap_cons_none (content?_name h))
  rcases isBreak_cases hc with rfl | rfl | rfl <;> rfl

theorem shaped_column {table name : String} (htable : isIdentifier table = true) (hname : isIdentifier name = true) :
    Shaped (table ++ "." ++ name) (table ++ "." ++ name) [] := by
  obtain ⟨c, rest, hchars, hc⟩ := isIdentifier_chars hname
  obtain ⟨ts, -, hts, -, -, hcontent⟩ := shaped_name hname
  have hplain : (!isSign c && !c.isDigit) = true := by
    rw [not_isSign rfl hc, not_isDigit_of_isNameStart hc]
    rfl
  have hdot := splits_dot.append hts (.of_head (by rw [hchars, List.head?_cons]) hplain)
  rw [String.append_assoc]
  refine .of_splits ((splits_name htable).append hdot (.append rfl)) ?_
  have hpoint : content? "." = none := rfl
  simp [content?_name htable, hpoint, hcontent]

def opensPlain (text : String) : Bool := text.toList.head?.any fun c => !isSign c

theorem opensPlain_append {a : String} (h : opensPlain a = true) (b : String) : opensPlain (a ++ b) = true := by
  unfold opensPlain at h ⊢
  cases hhead : a.toList.head? with
  | none => simp [hhead] at h
  | some c =>
    rw [String.toList_append, List.head?_append, hhead]
    simpa [hhead] using h

theorem opensPlain_name {name : String} (h : isIdentifier name = true) : opensPlain name = true := by
  obtain ⟨c, rest, hchars, hc⟩ := isIdentifier_chars h
  simp [opensPlain, hchars, not_isSign rfl hc]

theorem leads_of_opensPlain {Q : Char → Bool} {a : String} (h : opensPlain a = true) : Leads (fun c => !isSign c) Q a := by
  have hleads : Leads (fun c => !isSign c) Q (a ++ "") := .append h
  rwa [String.append_empty] at hleads

structure Operand (a b : String) (xs : List String) : Prop where
  shaped : Shaped a b xs
  plain : opensPlain a = true
  plain' : opensPlain b = true

theorem Operand.enclose {before behind a b : String} {xs ys zs ws : List String} (hbefore : Fixed before xs)
    (hplain : opensPlain before = true) (h : Shaped a b ys) (hbehind : Separates behind zs) (hws : xs ++ (ys ++ zs) = ws) :
    Operand (before ++ a ++ behind) (before ++ b ++ behind) ws :=
  ⟨.enclose hbefore h hbehind hws, opensPlain_append (opensPlain_append hplain _) _,
    opensPlain_append (opensPlain_append hplain _) _⟩

theorem operand_name {name : String} (h : isIdentifier name = true) : Operand name name [] :=
  ⟨shaped_name h, opensPlain_name h, opensPlain_name h⟩

structure IsNumeral (text : String) : Prop where
  splits : Splits isBreak text [text]
  digit : ∃ c rest, text.toList = c :: rest ∧ c.isDigit = true

theorem isNumeral_whole {cs : List Char} (hne : cs ≠ []) (h : IsDigits cs) : IsNumeral (String.ofList cs) := by
  refine ⟨splits_whole hne h, ?_⟩
  obtain ⟨c, rest, rfl⟩ := List.exists_cons_of_ne_nil hne
  exact ⟨c, rest, String.toList_ofList, h c (List.mem_cons_self ..)⟩

theorem isNumeral_fraction {whole fraction : List Char} (hne : whole ≠ []) (hwhole : IsDigits whole)
    (hfraction : IsDigits fraction) : IsNumeral (String.ofList (whole ++ '.' :: fraction)) := by
  refine ⟨splits_fraction hne hwhole hfraction, ?_⟩
  obtain ⟨c, rest, rfl⟩ := List.exists_cons_of_ne_nil hne
  exact ⟨c, _, String.toList_ofList, hwhole c (List.mem_cons_self ..)⟩

theorem Shaped.signed {text : String} (h : Shaped text text []) (hplain : opensPlain text = true) (negative : Bool) :
    Shaped (signText negative ++ text) (signText negative ++ text) [] := by
  cases negative with
  | false => simpa [signText] using h
  | true => exact .lead splits_minus rfl h (leads_of_opensPlain hplain) (leads_of_opensPlain hplain)

theorem IsNumeral.signed {text : String} (h : IsNumeral text) (negative : Bool) :
    Shaped (signText negative ++ text) (signText negative ++ text) [] := by
  obtain ⟨c, rest, hchars, hc⟩ := h.digit
  have hquote : c ≠ '\'' := by
    rintro rfl
    exact absurd hc (by decide)
  refine Shaped.signed (.of_splits h.splits (List.filterMap_cons_none (content?_eq_none hchars hquote))) ?_ negative
  simp [opensPlain, hchars, not_isSign rfl hc]

theorem shaped_int (n : Int) : Shaped (toString n) (toString n) [] := by
  have hnumeral : IsNumeral (toString n.natAbs) := isNumeral_whole Nat.toDigits_ne_nil (isDigits_toDigits _)
  have htext : toString n = signText (n < 0) ++ toString n.natAbs := by
    rw [Int.toString_eq_repr, Int.repr_eq_if]
    rcases Int.lt_or_le n 0 with hneg | hpos
    · rw [if_neg (by omega), show (-n).toNat = n.natAbs by omega]
      simp [signText, hneg]
    · rw [if_pos hpos, show n.toNat = n.natAbs by omega]
      simp [signText, Int.not_lt.mpr hpos]
  rw [htext]
  exact hnumeral.signed _

theorem isNumeral_positional (d : Decimal) : IsNumeral (positional d) := by
  rcases Int.lt_or_le d.exponent 0 with hneg | hpos
  · obtain ⟨whole, fraction, htext, hne, hwhole, hfraction, -⟩ := positional_fraction hneg
    rw [htext]
    exact isNumeral_fraction hne hwhole hfraction
  · obtain ⟨cs, htext, hne, hcs, -⟩ := positional_whole hpos
    rw [htext]
    exact isNumeral_whole hne hcs

theorem isNumeral_point {d : Decimal} (h : 0 ≤ d.exponent) : IsNumeral (positional d ++ ".0") := by
  obtain ⟨cs, htext, hne, hcs, -⟩ := positional_whole h
  have hpoint : String.ofList cs ++ ".0" = String.ofList (cs ++ '.' :: ['0']) := String.toList_inj.mp (by simp)
  rw [htext, hpoint]
  exact isNumeral_fraction hne hcs (isDigits_zeros 1)

theorem shaped_float (x : Float) : Shaped (Number.literal x) (Number.literal x) [] := by
  cases hread : Binary64.read x with
  | finite negative m e =>
    have hplain : plain x = signText negative ++ positional (shortest m e) := by simp only [plain, hread]
    have hdigits : Shaped (plain x) (plain x) [] := by
      rw [hplain]
      exact (isNumeral_positional _).signed negative
    unfold Number.literal
    split
    · next n hint =>
      split
      · next hsmall =>
        rw [hplain, String.append_assoc]
        exact (isNumeral_point (shortest_exponent_of_toInt? hread hint hsmall)).signed negative
      · exact hdigits
    · exact hdigits
  | infinite negative =>
    have htext : Number.literal x = signText negative ++ "inf" := by
      simp only [Number.literal, Binary64.toInt?, hread, plain]
    rw [htext]
    exact (shaped_name rfl).signed rfl negative
  | notANumber =>
    have htext : Number.literal x = "NaN" := by simp only [Number.literal, Binary64.toInt?, hread, plain]
    rw [htext]
    exact shaped_name rfl

def Setting.clause (s : Setting) : String := if s.filters.isEmpty then "" else " WHERE " ++ join " AND " s.filters

/-- Settings of one dialect, which is not BigQuery, that repeat clauses of one shape. -/
structure Alike (s s' : Setting) (conditions : List String) : Prop where
  dialect : s'.dialect = s.dialect
  known : s.dialect ≠ .bigquery
  clause : Shaped s.clause s'.clause conditions

theorem leads_clause (s : Setting) : Leads isBreak isBreak s.clause := by
  unfold Setting.clause
  split
  · exact fun c hc => hc
  · exact .append rfl

theorem precedence_blank (x : Sql) : x.blank.precedence = x.precedence := by
  cases x <;> rfl

/-- The texts of a tree and of its blank have one shape. Operands, but for numbers, begin with no sign. -/
structure Shows (s s' : Setting) (conditions : List String) (x : Sql) : Prop where
  shaped : Shaped (x.render s) (x.blank.render s') (x.texts s.dialect conditions)
  plain : atomic ≤ x.precedence → (∀ l, x = .literal l → l.number? = none) →
    opensPlain (x.render s) = true ∧ opensPlain (x.blank.render s') = true

namespace Shows

variable {items : List Sql}

variable {s s' : Setting} {conditions : List String} {x y z : Sql}

theorem operator (h : Shaped (x.render s) (x.blank.render s') (x.texts s.dialect conditions))
    (hx : x.precedence < atomic) : Shows s s' conditions x :=
  ⟨h, fun hatomic => absurd hx (Nat.not_lt.mpr hatomic)⟩

theorem operand (h : Operand (x.render s) (x.blank.render s') (x.texts s.dialect conditions)) : Shows s s' conditions x :=
  ⟨h.shaped, fun _ _ => ⟨h.plain, h.plain'⟩⟩

theorem fixed_paren : Fixed "(" [] := ⟨["("], fun _ _ _ => rfl, rfl⟩

theorem separates_paren : Separates ")" [] := ⟨⟨[")"], fun _ _ _ => rfl, rfl⟩, rfl⟩

theorem separates_comma : Separates ", " [] := ⟨⟨[","], fun _ _ _ => rfl, rfl⟩, rfl⟩

theorem guarded (h : Shows s s' conditions x) (parent : Nat) (strict : Bool) :
    Shaped (guard x parent strict (x.render s)) (guard x.blank parent strict (x.blank.render s'))
      (x.texts s.dialect conditions) := by
  simp only [guard, precedence_blank]
  split
  · exact .enclose fixed_paren h.shaped separates_paren (by simp)
  · exact h.shaped

/-- In parentheses unless it is an operand, and then no sign begins it. -/
theorem opensPlain_guarded (h : Shows s s' conditions x) (hnumber : ∀ l, x = .literal l → l.number? = none) :
    opensPlain (guard x atomic false (x.render s)) = true ∧
      opensPlain (guard x.blank atomic false (x.blank.render s')) = true := by
  simp only [guard, precedence_blank, Bool.false_and, Bool.or_false, decide_eq_true_eq]
  split
  · exact ⟨opensPlain_append (opensPlain_append rfl _) _, opensPlain_append (opensPlain_append rfl _) _⟩
  · next hatomic => exact h.plain (Nat.not_lt.mp hatomic) hnumber

theorem arith (op : ArithOp) (hx : Shows s s' conditions x) (hy : Shows s s' conditions y) :
    Shows s s' conditions (.arith op x y) := by
  have hop : Separates (" " ++ op.symbol ++ " ") [] := by cases op <;> exact ⟨⟨[_], fun _ _ _ => rfl, rfl⟩, rfl⟩
  have hglue := (hx.guarded op.precedence false).glue hop (hy.guarded op.precedence (op == .sub || op == .div))
  simp only [← String.append_assoc] at hglue
  exact operator hglue (show op.precedence < atomic by cases op <;> decide)

theorem compare (op : CompareOp) (hx : Shows s s' conditions x) (hy : Shows s s' conditions y) :
    Shows s s' conditions (.compare op x y) := by
  have hop : Separates (" " ++ op.symbol ++ " ") [] := by cases op <;> exact ⟨⟨[_], fun _ _ _ => rfl, rfl⟩, rfl⟩
  have hglue := (hx.guarded 5 true).glue hop (hy.guarded 5 true)
  simp only [← String.append_assoc] at hglue
  exact operator hglue (by decide : 5 < atomic)

theorem mapAll_eq (f : Literal → Literal) (items : List Sql) : mapAll f items = items.map (Sql.mapLiterals f) := by
  induction items with
  | nil => rfl
  | cons item rest ih => exact congrArg (List.cons _) ih

theorem allTexts_eq (dialect : Dialect) (items : List Sql) :
    allTexts dialect conditions items = items.flatMap (Sql.texts dialect conditions) := by
  induction items with
  | nil => rfl
  | cons item rest ih => exact congrArg (_ ++ ·) ih

theorem joined {sep : String} (hsep : Separates sep []) (parent : Nat) (h : ∀ x ∈ items, Shows s s' conditions x) :
    Shaped (Text.join sep (renderGuarded s parent items))
      (Text.join sep (renderGuarded s' parent (mapAll Literal.blank items)))
      (allTexts s.dialect conditions items) := by
  rw [mapAll_eq, allTexts_eq, Sql.renderGuarded_eq, Sql.renderGuarded_eq, List.map_map]
  exact .join hsep fun x hx => (h x hx).guarded parent false

theorem listed (h : ∀ x ∈ items, Shows s s' conditions x) :
    Shaped (Text.join ", " (renderAll s items)) (Text.join ", " (renderAll s' (mapAll Literal.blank items)))
      (allTexts s.dialect conditions items) := by
  rw [mapAll_eq, allTexts_eq, Sql.renderAll_eq, Sql.renderAll_eq, List.map_map]
  exact .join separates_comma fun x hx => (h x hx).shaped

theorem separates_and : Separates " AND " [] := ⟨⟨["AND"], fun _ _ _ => rfl, rfl⟩, rfl⟩

theorem and (h : ∀ x ∈ items, Shows s s' conditions x) : Shows s s' conditions (.and items) :=
  operator (joined separates_and 3 h) (by decide : 3 < atomic)

theorem or (h : ∀ x ∈ items, Shows s s' conditions x) : Shows s s' conditions (.or items) :=
  operator (joined ⟨⟨["OR"], fun _ _ _ => rfl, rfl⟩, rfl⟩ 2 h) (by decide : 2 < atomic)

theorem not (h : Shows s s' conditions x) : Shows s s' conditions (.not x) := by
  have hnot : Fixed "NOT " [] := ⟨["NOT"], fun _ _ _ => rfl, rfl⟩
  exact operator (.after hnot (h.guarded atomic false)) (by decide : 4 < atomic)

theorem neg (h : Shows s s' conditions x) (hnumber : ∀ l, x = .literal l → l.number? = none) :
    Shows s s' conditions (.neg x) := by
  obtain ⟨hplain, hplain'⟩ := h.opensPlain_guarded hnumber
  have hminus : ["-"].filterMap content? = [] := rfl
  exact operator (.lead splits_minus hminus (h.guarded atomic false) (leads_of_opensPlain hplain)
    (leads_of_opensPlain hplain')) (by decide : 9 < atomic)

theorem isNull (negated : Bool) (h : Shows s s' conditions x) : Shows s s' conditions (.isNull x negated) := by
  have hnull : Shaped "NULL" "NULL" [] := shaped_name rfl
  have his : Separates (" IS " ++ if negated then "NOT " else "") [] := by
    cases negated with
    | false => exact ⟨⟨["IS"], fun _ _ _ => rfl, rfl⟩, rfl⟩
    | true => exact ⟨⟨["IS", "NOT"], fun _ _ _ => rfl, rfl⟩, rfl⟩
  have hglue := (h.guarded 5 true).glue his hnull
  rw [List.nil_append, List.append_nil] at hglue
  simp only [← String.append_assoc] at hglue
  exact operator hglue (by decide : 5 < atomic)

theorem between (hx : Shows s s' conditions x) (hy : Shows s s' conditions y) (hz : Shows s s' conditions z) :
    Shows s s' conditions (.between x y z) := by
  have hbetween : Separates " BETWEEN " [] := ⟨⟨["BETWEEN"], fun _ _ _ => rfl, rfl⟩, rfl⟩
  exact operator (((hx.guarded 5 true).glue hbetween (hy.guarded 5 true)).glue separates_and (hz.guarded 5 true))
    (by decide : 5 < atomic)

theorem inList (negated : Bool) (hx : Shows s s' conditions x)
    (hitems : ∀ y ∈ items, Shows s s' conditions y) : Shows s s' conditions (.inList x items negated) := by
  cases negated with
  | false =>
    have hin : Separates " IN (" [] := ⟨⟨["IN", "("], fun _ _ _ => rfl, rfl⟩, rfl⟩
    have hlist := ((hx.guarded 5 true).glue hin (listed hitems)).glue separates_paren .empty
    rw [String.append_empty, String.append_empty, List.append_nil, List.append_nil] at hlist
    exact operator hlist (by decide : 5 < atomic)
  | true =>
    have hin : Separates " NOT IN (" [] := ⟨⟨["NOT", "IN", "("], fun _ _ _ => rfl, rfl⟩, rfl⟩
    have hclose : Separates "))" [] := ⟨⟨[")", ")"], fun _ _ _ => rfl, rfl⟩, rfl⟩
    have hlist := Operand.enclose fixed_paren rfl ((hx.guarded 5 true).glue hin (listed hitems)) hclose (List.append_nil _)
    simp only [← String.append_assoc] at hlist
    exact operand hlist

theorem cast (type : CastType) (h : Shows s s' conditions x) : Shows s s' conditions (.cast x type) := by
  have hopen : Fixed "CAST(" [] := ⟨["CAST", "("], fun _ _ _ => rfl, rfl⟩
  have htype : Separates (" AS " ++ type.name ++ ")") [] := by
    cases type <;> exact ⟨⟨["AS", _, ")"], fun _ _ _ => rfl, rfl⟩, rfl⟩
  have hcast := Operand.enclose hopen rfl h.shaped htype (List.append_nil _)
  simp only [← String.append_assoc] at hcast
  exact operand hcast

theorem func {name : String} (hname : isIdentifier name = true) {args : List Sql}
    (h : ∀ x ∈ args, Shows s s' conditions x) : Shows s s' conditions (.func name args) :=
  operand (.enclose (fixed_call hname) (opensPlain_append (opensPlain_name hname) _) (listed h) separates_paren
    (List.append_nil _))

theorem countAll : Shows s s' conditions (.func "count" [.star]) := by
  have hsplits : Splits isBreak "count(*)" ["count", "(", "*", ")"] := fun _ _ _ => rfl
  have hplain : opensPlain "count(*)" = true := rfl
  exact operand ⟨.of_splits hsplits rfl, hplain, hplain⟩

theorem countDistinct (h : Shows s s' conditions x) : Shows s s' conditions (.countDistinct x) := by
  have hopen : Fixed "count(DISTINCT " [] := ⟨["count", "(", "DISTINCT"], fun _ _ _ => rfl, rfl⟩
  exact operand (.enclose hopen rfl (h.guarded atomic false) separates_paren (List.append_nil _))

theorem column {table name : String} (htable : isIdentifier table = true) (hname : isIdentifier name = true) :
    Shows s s' conditions (.column table name) := by
  have hplain := opensPlain_append (opensPlain_append (opensPlain_name htable) ".") name
  exact operand ⟨shaped_column htable hname, hplain, hplain⟩

theorem literal (l : Literal) : Shows s s' conditions (.literal l) := by
  have hquoted (t : String) : Operand (quoteText t) (quoteText "") [t] := by
    have hplain (t : String) : opensPlain (quoteText t) = true := by simp [opensPlain, quoteText, isSign, signs]
    exact ⟨.text t "", hplain t, hplain ""⟩
  cases l with
  | null => exact operand (operand_name (show isIdentifier "NULL" = true from rfl))
  | bool b =>
    have hbool : isIdentifier (if b then "true" else "false") = true := by cases b <;> rfl
    exact operand (operand_name hbool)
  | int n =>
    refine ⟨shaped_int n, fun _ hnumber => ?_⟩
    cases hnumber _ rfl
  | float x =>
    refine ⟨shaped_float x, fun _ hnumber => ?_⟩
    cases hnumber _ rfl
  | text t => exact operand (hquoted t)
  | date d => exact operand (hquoted d.text)
  | datetime m => exact operand (hquoted m.text)

theorem renderPercentile_eq (n : Nat) (a : String) {dialect : Dialect} (h : dialect ≠ .bigquery) :
    renderPercentile n a dialect = "percentile_cont(" ++ (Number.literal (Binary64.ofRatio false n 100) ++
      ") WITHIN GROUP (ORDER BY " ++ a) ++ ")" := by
  have htext : renderPercentile n a dialect = "percentile_cont(" ++ Number.literal (Binary64.ofRatio false n 100) ++
      ") WITHIN GROUP (ORDER BY " ++ a ++ ")" := by
    cases dialect with
    | bigquery => exact absurd rfl h
    | _ => rfl
  rw [htext]
  simp only [String.append_assoc]

theorem percentile (hs : Alike s s' conditions) (n : Nat) (h : Shows s s' conditions x) :
    Shows s s' conditions (.percentile n x) := by
  have hopen : Fixed "percentile_cont(" [] := ⟨["percentile_cont", "("], fun _ _ _ => rfl, rfl⟩
  have hgroup : Separates ") WITHIN GROUP (ORDER BY " [] :=
    ⟨⟨[")", "WITHIN", "GROUP", "(", "ORDER", "BY"], fun _ _ _ => rfl, rfl⟩, rfl⟩
  have hnumber := shaped_float (Binary64.ofRatio false n 100)
  have htext := renderPercentile_eq n (x.render s) hs.known
  have htext' := renderPercentile_eq n (x.blank.render s') (hs.dialect ▸ hs.known)
  -- the number is not to be evaluated
  generalize Number.literal (Binary64.ofRatio false n 100) = digits at hnumber htext htext'
  have hcall := Operand.enclose hopen rfl (hnumber.glue hgroup h.shaped) separates_paren (List.append_nil _)
  rw [← htext, ← htext'] at hcall
  exact operand hcall

theorem operand_renderTrunc {a b : String} {xs : List String} (h : Shaped a b xs) (unit : TruncUnit) (datetime : Bool)
    {dialect : Dialect} (hdialect : dialect ≠ .bigquery) :
    Operand (renderTrunc unit a datetime dialect) (renderTrunc unit b datetime dialect) (truncTexts unit xs dialect) := by
  cases dialect with
  | bigquery => exact absurd rfl hdialect
  | postgresql =>
    have hopen : Fixed ("date_trunc('" ++ unit.name ++ "', ") [unit.name] := by
      cases unit <;> exact ⟨["date_trunc", "(", _, ","], fun _ _ _ => rfl, rfl⟩
    exact .enclose hopen (opensPlain_append (opensPlain_append rfl _) _) h separates_paren (by rw [List.append_nil]; rfl)
  | sqlite =>
    have hdate : Fixed "date(" [] := ⟨["date", "("], fun _ _ _ => rfl, rfl⟩
    cases unit with
    | year =>
      have hmodifier : Separates ", 'start of year')" ["start of year"] :=
        ⟨⟨[",", "'start of year'", ")"], fun _ _ _ => rfl, rfl⟩, rfl⟩
      exact .enclose hdate rfl h hmodifier rfl
    | month =>
      have hmodifier : Separates ", 'start of month')" ["start of month"] :=
        ⟨⟨[",", "'start of month'", ")"], fun _ _ _ => rfl, rfl⟩, rfl⟩
      exact .enclose hdate rfl h hmodifier rfl
    | day => exact .enclose hdate rfl h separates_paren (List.append_nil _)
    | week =>
      have hmodifiers : Separates ", '-6 days', 'weekday 1')" ["-6 days", "weekday 1"] :=
        ⟨⟨[",", "'-6 days'", ",", "'weekday 1'", ")"], fun _ _ _ => rfl, rfl⟩, rfl⟩
      exact .enclose hdate rfl h hmodifiers rfl
    | quarter =>
      have hmiddle : Separates ", 'start of month', printf('-%d months', (CAST(strftime('%m', "
          ["start of month", "-%d months", "%m"] :=
        ⟨⟨[",", "'start of month'", ",", "printf", "(", "'-%d months'", ",", "(", "CAST", "(", "strftime", "(", "'%m'",
          ","], fun _ _ _ => rfl, rfl⟩, rfl⟩
      have hclose : Separates ") AS INTEGER) - 1) % 3))" [] :=
        ⟨⟨[")", "AS", "INTEGER", ")", "-", "1", ")", "%", "3", ")", ")"], fun _ _ _ => rfl, rfl⟩, rfl⟩
      have hcall := Operand.enclose hdate rfl (h.glue hmiddle h) hclose rfl
      simp only [← String.append_assoc, List.nil_append, List.append_nil, ← List.append_assoc] at hcall
      exact hcall

theorem dateTrunc (hs : Alike s s' conditions) (unit : TruncUnit) (datetime : Bool) (h : Shows s s' conditions x) :
    Shows s s' conditions (.dateTrunc unit x datetime) := by
  have hcall := operand_renderTrunc h.shaped unit datetime hs.known
  have hx' : (Sql.dateTrunc unit x datetime).blank.render s' = renderTrunc unit (x.blank.render s') datetime s.dialect := by
    rw [← hs.dialect]
    rfl
  rw [← hx'] at hcall
  exact operand hcall

theorem total (hs : Alike s s' conditions) {table : String} (htable : isIdentifier table = true)
    (h : Shows s s' conditions x) : Shows s s' conditions (.total table x) := by
  have hopen : Fixed "(SELECT " [] := ⟨["(", "SELECT"], fun _ _ _ => rfl, rfl⟩
  have hfrom : Separates " FROM " [] := ⟨⟨["FROM"], fun _ _ _ => rfl, rfl⟩, rfl⟩
  have hclause := (shaped_name htable).append hs.clause (leads_clause s) (leads_clause s')
  have hquery := Operand.enclose hopen rfl (h.shaped.glue hfrom hclause) separates_paren (List.append_nil _)
  simp only [← String.append_assoc] at hquery
  exact operand hquery

theorem whens {whens : List (Sql × Sql)} (hconditions : ∀ w ∈ whens, Shows s s' conditions w.1)
    (hvalues : ∀ w ∈ whens, Shows s s' conditions w.2) :
    Shaped (String.join (renderWhens s whens)) (String.join (renderWhens s' (mapWhens Literal.blank whens)))
        (whenTexts s.dialect conditions whens) ∧
      Leads isBreak isBreak (String.join (renderWhens s whens)) ∧
      Leads isBreak isBreak (String.join (renderWhens s' (mapWhens Literal.blank whens))) := by
  induction whens with
  | nil => exact ⟨.empty, fun c hc => hc, fun c hc => hc⟩
  | cons w rest ih =>
    obtain ⟨condition, value⟩ := w
    obtain ⟨hrest, hleads, hleads'⟩ := ih (fun w hw => hconditions w (List.mem_cons_of_mem _ hw))
      fun w hw => hvalues w (List.mem_cons_of_mem _ hw)
    have hwhen : Fixed " WHEN " [] := ⟨["WHEN"], fun _ _ _ => rfl, rfl⟩
    have hthen : Separates " THEN " [] := ⟨⟨["THEN"], fun _ _ _ => rfl, rfl⟩, rfl⟩
    have hfirst := Shaped.after hwhen (((hconditions _ (List.mem_cons_self ..)).guarded atomic false).glue hthen
      (hvalues _ (List.mem_cons_self ..)).shaped)
    have hall := hfirst.append hrest hleads hleads'
    rw [renderWhens, mapWhens, renderWhens, String.join_cons, String.join_cons]
    simp only [String.append_assoc] at hall ⊢
    exact ⟨hall, .append rfl, .append rfl⟩

theorem otherwise {otherwise : Option Sql} (h : ∀ x, otherwise = some x → Shows s s' conditions x) :
    Shaped (renderElse s otherwise) (renderElse s' (mapElse Literal.blank otherwise))
        (elseTexts s.dialect conditions otherwise) ∧
      Leads isBreak isBreak (renderElse s otherwise) ∧
      Leads isBreak isBreak (renderElse s' (mapElse Literal.blank otherwise)) := by
  cases otherwise with
  | none => exact ⟨.empty, fun c hc => hc, fun c hc => hc⟩
  | some x =>
    have helse : Fixed " ELSE " [] := ⟨["ELSE"], fun _ _ _ => rfl, rfl⟩
    exact ⟨.after helse (h x rfl).shaped, .append rfl, .append rfl⟩

theorem case {whens : List (Sql × Sql)} {otherwise : Option Sql} (hconditions : ∀ w ∈ whens, Shows s s' conditions w.1)
    (hvalues : ∀ w ∈ whens, Shows s s' conditions w.2) (hotherwise : ∀ x, otherwise = some x → Shows s s' conditions x) :
    Shows s s' conditions (.case whens otherwise) := by
  obtain ⟨hwhens, hleads, hleads'⟩ := Shows.whens hconditions hvalues
  obtain ⟨helse, hleadsElse, hleadsElse'⟩ := Shows.otherwise hotherwise
  have hblank : Fixed " " [] := ⟨[], fun _ _ _ => rfl, rfl⟩
  have hend : Shaped " END" " END" [] := .after hblank (shaped_name (show isIdentifier "END" = true from rfl))
  have hleadsEnd : Leads isBreak isBreak " END" := .of_head (c := ' ') rfl rfl
  have hcase : Shaped "CASE" "CASE" [] := shaped_name rfl
  have hall := ((hcase.append hwhens hleads hleads').append helse hleadsElse hleadsElse').append hend hleadsEnd hleadsEnd
  rw [List.append_nil] at hall
  have hplain (a b : String) : opensPlain ("CASE" ++ a ++ b ++ " END") = true :=
    opensPlain_append (opensPlain_append (opensPlain_append rfl _) _) _
  exact operand ⟨hall, hplain _ _, hplain _ _⟩

end Shows

theorem Shows.passesUp {schema : Table} (htable : isIdentifier schema.name = true) {s s' : Setting}
    {conditions : List String} (hs : Alike s s' conditions) : Sql.PassesUp schema (Shows s s' conditions) where
  column := .column htable
  literal := .literal
  arith := .arith
  neg := .neg
  compare := .compare
  and := .and
  or := .or
  not := .not
  isNull := .isNull
  inList := .inList
  between := .between
  cast := .cast
  case := .case
  func hname := .func hname
  countAll := .countAll
  countDistinct := .countDistinct
  percentile := .percentile hs
  dateTrunc := .dateTrunc hs
  total := .total hs htable

/-- Tokens that are equal or both quoted texts. -/
def SameToken (t u : String) : Prop := t = u ∨ ∃ s s', t = quoteText s ∧ u = quoteText s'

theorem sameToken_of_blankToken_eq {t u : String} (h : blankToken t = blankToken u) : SameToken t u := by
  have hquoted {t : String} (ht : (content? t).isSome = true) : ∃ s, t = quoteText s := by
    obtain ⟨s, hs⟩ := Option.isSome_iff_exists.mp ht
    exact ⟨s, eq_quoteText_of_content? hs⟩
  have hempty : (content? (quoteText "")).isSome = true := by rw [content?_quoteText, Option.isSome_some]
  unfold blankToken at h
  split at h
  · next ht =>
    have hu : (content? u).isSome = true := by
      split at h
      · assumption
      · exact h ▸ hempty
    obtain ⟨s, hs⟩ := hquoted ht
    obtain ⟨s', hs'⟩ := hquoted hu
    exact .inr ⟨s, s', hs, hs'⟩
  · split at h
    · next ht _ => exact absurd (h ▸ hempty) ht
    · exact .inl h

/-- Where conditions stand in a WHERE clause that totals repeat. -/
def repeating (dialect : Dialect) (conditions : List Sql) : Setting :=
  ⟨dialect, conditions.map (Sql.renderConjunct ⟨dialect, []⟩)⟩

def conditionTexts (dialect : Dialect) (conditions : List Sql) : List String := conditions.flatMap (Sql.texts dialect [])

section

variable {schema : Table} (htable : isIdentifier schema.name = true) {dialect : Dialect} (hdialect : dialect ≠ .bigquery)

include htable hdialect

theorem alike_repeating {conditions : List Sql} (h : ∀ x ∈ conditions, x.WellTyped schema .any) :
    Alike (repeating dialect conditions) (repeating dialect (conditions.map Sql.blank))
      (conditionTexts dialect conditions) := by
  refine ⟨rfl, hdialect, ?_⟩
  have hplain : Alike ⟨dialect, []⟩ ⟨dialect, []⟩ [] := ⟨rfl, hdialect, .empty⟩
  have hjoin := Shaped.join Shows.separates_and fun x hx => ((Shows.passesUp htable hplain).of_wellTyped (h x hx)).guarded 3 false
  have hwhere : Fixed " WHERE " [] := ⟨["WHERE"], fun _ _ _ => rfl, rfl⟩
  cases conditions with
  | nil => exact .empty
  | cons x rest =>
    have hclause := Shaped.after hwhere hjoin
    change Shaped (" WHERE " ++ Text.join " AND " ((x :: rest).map _))
      (" WHERE " ++ Text.join " AND " (((x :: rest).map _).map _)) _
    rw [List.map_map]
    exact hclause

/-- The text of a tree is split like that of its blank, and its quoted tokens are the texts in it. -/
theorem split_render {conditions : List Sql} (hconditions : ∀ x ∈ conditions, x.WellTyped schema .any) {x : Sql}
    (hx : x.WellTyped schema .any) : ∃ ts us, split? (x.render (repeating dialect conditions)) = some ts ∧
      split? (x.blank.render (repeating dialect (conditions.map Sql.blank))) = some us ∧
      ts.map blankToken = us.map blankToken ∧
      ts.filterMap content? = x.texts dialect (conditionTexts dialect conditions) := by
  have hshows := (Shows.passesUp htable (alike_repeating htable hdialect hconditions)).of_wellTyped hx
  obtain ⟨ts, us, hts, hus, hsame, htexts⟩ := hshows.shaped
  exact ⟨ts, us, split?_of_splits hts, split?_of_splits hus, hsame, htexts⟩

end

end ShelfQuery.Sql
