import ShelfQuery.Proofs.Sql.Occurrence
import ShelfQuery.Proofs.Sql.Reader.Numbers
import ShelfQuery.Proofs.Sql.Reader.Written

set_option autoImplicit false

namespace ShelfQuery.Sql

open ShelfQuery.Schema ShelfQuery.Text

variable {name : String} {items : List Sql} {j : ValueClass}

/-- Whether SQL takes a name for a name and reads a number back. No database of this dialect knows
percentiles. -/
def IsLegible : Sql → Prop
  | .column table name => Reader.NamesTable table ∧ isBareName name = true
  | .literal l => l.isMachine = true ∧ l.keepsDigits = true
  | .total table _ => Reader.NamesTable table
  | .percentile _ _ => False
  | _ => True

namespace Reader

variable {schema : Table} {conditions : List Sql}

/-- The expression of a WHERE clause keeps the rows that satisfy the conditions. -/
def Keeps (schema : Table) (conditions : List Sql) (condition : Option Expr) : Prop :=
  ∀ d : Database, d.Conforms schema → ∀ row ∈ d.rows schema.name,
    isKept d ⟨schema.name, d.rows schema.name, some row⟩ condition = conditions.all fun x =>
      x.truthIn d.primitives ⟨d.rows schema.name, d.rows schema.name, some row⟩ == some true

theorem Keeps.filter_eq {condition : Option Expr} (h : Keeps schema conditions condition) {d : Database}
    (hd : d.Conforms schema) :
    ((d.rows schema.name).filter fun row => isKept d ⟨schema.name, d.rows schema.name, some row⟩ condition) =
      d.kept schema.name conditions :=
  List.filter_congr fun row hrow => h d hd row hrow

theorem Agrees.total {x : Sql} {e : Expr} (hx : Agrees schema conditions x e) {condition : Option Expr}
    (hcondition : Keeps schema conditions condition) :
    Agrees schema conditions (.total schema.name x) (.select e schema.name condition) := by
  refine ⟨rfl, fun d hd s hs => ?_⟩
  obtain ⟨table, group, row⟩ := s
  obtain rfl : table = schema.name := hs.table
  have hkept : ∀ row ∈ d.kept schema.name conditions, row.Conforms schema := hd.kept
  have hscope (row : Option Row) (hrow : ∀ r, row = some r → r ∈ d.kept schema.name conditions) :
      e.eval d ⟨schema.name, d.kept schema.name conditions, row⟩ =
        x.eval d.primitives ⟨d.kept schema.name conditions, d.kept schema.name conditions, row⟩ :=
    hx.value d hd _ ⟨rfl, hkept, fun r hr => hkept r (hrow r hr)⟩
  -- both sides as a choice of what is done with the rows that are kept
  let value (aggregate : Bool) (rows : List Row) (f : List Row → Option Row → Value) : Value :=
    if aggregate then f rows rows.head? else d.primitives.subquery (rows.map fun row => f rows (some row))
  change value e.hasAggregate ((d.rows schema.name).filter _) (fun rows row => e.eval d ⟨schema.name, rows, row⟩) =
    value x.hasAggregate (d.kept schema.name conditions) fun rows row => x.eval d.primitives ⟨rows, rows, row⟩
  rw [hcondition.filter_eq hd, hx.aggregate]
  simp only [value]
  split
  · exact hscope _ fun r hr => List.mem_of_head? hr
  · refine congrArg d.primitives.subquery (List.map_congr_left fun row hrow => hscope (some row) ?_)
    rintro r ⟨⟩
    exact hrow

def functionNames : List String :=
  ["coalesce", "substr", "lower", "sum", "avg", "min", "max", "count", "date", "printf", "strftime"]

theorem isFunction (h : name ∈ functionNames) : IsFunction name := by
  simp only [functionNames, List.mem_cons, List.not_mem_nil, or_false] at h
  rcases h with rfl | rfl | rfl | rfl | rfl | rfl | rfl | rfl | rfl | rfl | rfl <;> exact ⟨rfl, fun _ _ => rfl⟩

theorem startsPlain_functionName (h : name ∈ functionNames) : startsPlain name = true := by
  revert name
  decide

def truncExpr (e : Expr) : TruncUnit → Expr
  | .year => .call "date" [e, .literal (.text "start of year")]
  | .month => .call "date" [e, .literal (.text "start of month")]
  | .day => .call "date" [e]
  | .week => .call "date" [e, .literal (.text "-6 days"), .literal (.text "weekday 1")]
  | .quarter =>
    let month := Expr.cast (.call "strftime" [.literal (.text "%m"), e]) .integer
    .call "date" [e, .literal (.text "start of month"), .call "printf"
      [.literal (.text "-%d months"), .modulo (.arith .sub month (.literal (.int 1))) (.literal (.int 3))]]

theorem Agrees.dateTrunc {x : Sql} {e : Expr} (h : Agrees schema conditions x e) (unit : TruncUnit) (datetime : Bool) :
    Agrees schema conditions (.dateTrunc unit x datetime) (truncExpr e unit) := by
  refine ⟨?_, fun d hd s hs => ?_⟩
  · have haggregate : (truncExpr e unit).hasAggregate = e.hasAggregate := by
      cases unit with
      | quarter =>
        change (false || (e.hasAggregate || (false || ((false || (false || (((false || (false ||
          (e.hasAggregate || false))) || false) || false) || false)) || false)))) = e.hasAggregate
        cases e.hasAggregate <;> rfl
      | _ => exact Bool.or_false _
    exact haggregate.trans h.aggregate
  · have hvalue : (truncExpr e unit).eval d s = d.primitives.truncated unit (e.eval d s) := by
      cases unit <;> rfl
    rw [hvalue, h.value d hd s hs]
    exact (hd.sqlite.truncates unit datetime _).symm

theorem join_cons_eq_append (sep text : String) (rest : List String) :
    join sep (text :: rest) = text ++ join sep ("" :: rest) := by
  cases rest with
  | nil => exact String.append_empty.symm
  | cons => simp only [join, String.empty_append, String.append_assoc]

theorem renderTrunc_quarter (a : String) (datetime : Bool) : renderTrunc .quarter a datetime .sqlite =
    "date(" ++ a ++ (join ", " ["", quoteText "start of month", "printf" ++ "(" ++ join ", " [quoteText "-%d months",
      "(" ++ ("CAST(" ++ ("strftime" ++ "(" ++ join ", " [quoteText "%m", a] ++ ")") ++ " AS " ++ CastType.integer.name ++
        ")" ++ (BinaryOp.arith .sub).text ++ "1") ++ ")" ++ BinaryOp.modulo.text ++ "3"] ++ ")"] ++ ")") := by
  have hmiddle : ", 'start of month', printf('-%d months', (CAST(strftime('%m', " =
      ", " ++ quoteText "start of month" ++ ", " ++ "printf" ++ "(" ++ quoteText "-%d months" ++ ", " ++ "(" ++ "CAST(" ++
        "strftime" ++ "(" ++ quoteText "%m" ++ ", " := rfl
  have hclose : ") AS INTEGER) - 1) % 3))" = ")" ++ " AS " ++ CastType.integer.name ++ ")" ++
      (BinaryOp.arith .sub).text ++ "1" ++ ")" ++ BinaryOp.modulo.text ++ "3" ++ ")" ++ ")" := rfl
  change "date(" ++ a ++ ", 'start of month', printf('-%d months', (CAST(strftime('%m', " ++ a ++
    ") AS INTEGER) - 1) % 3))" = _
  rw [hmiddle, hclose]
  simp only [join, String.empty_append, String.append_assoc]

theorem reads_renderTrunc {a : String} {e : Expr} (h : Reads 0 a e) (unit : TruncUnit) (datetime : Bool) :
    Reads 10 (renderTrunc unit a datetime .sqlite) (truncExpr e unit) := by
  have hdate {rest : String} {texts : List String} {es : List Expr} (hrest : rest = join ", " ("" :: texts) ++ ")")
      (htexts : List.Forall₂ (Reads 0) texts es) : Reads 10 ("date(" ++ a ++ rest) (.call "date" (e :: es)) := by
    have htext : "date(" ++ a ++ rest = "date" ++ "(" ++ join ", " (a :: texts) ++ ")" := by
      have hopen : "date(" = "date" ++ "(" := rfl
      rw [hopen, hrest, join_cons_eq_append ", " a]
      simp only [String.append_assoc]
    rw [htext]
    exact .call (isFunction (by decide)) (.cons h htexts) (by simp)
  cases unit with
  | year => exact hdate rfl (.cons (.text "start of year") .nil)
  | month => exact hdate rfl (.cons (.text "start of month") .nil)
  | day => exact hdate rfl .nil
  | week => exact hdate rfl (.cons (.text "-6 days") (.cons (.text "weekday 1") .nil))
  | quarter =>
    have hone : Reads 10 "1" (.literal (.int 1)) := ⟨_, ⟨_, _, _, rfl, rfl, rfl⟩, .integer 1⟩
    have hthree : Reads 10 "3" (.literal (.int 3)) := ⟨_, ⟨_, _, _, rfl, rfl, rfl⟩, .integer 3⟩
    have hmonth : Reads 10 ("strftime" ++ "(" ++ join ", " [quoteText "%m", a] ++ ")")
        (.call "strftime" [.literal (.text "%m"), e]) :=
      .call (isFunction (by decide)) (.cons (.text _) (.cons h .nil)) (by simp)
    have hpast := (hmonth.cast (k := 10) .integer).binary (BinaryOp.arith .sub).opens_text
      (BinaryOp.arith .sub).breaks_text (BinaryOp.arith .sub).binary?_token hone (by decide) (by decide)
    have hrest := (hpast.paren (m := 10)).binary BinaryOp.modulo.opens_text BinaryOp.modulo.breaks_text
      BinaryOp.modulo.binary?_token hthree (by decide) (by decide)
    have hprintf := Reads.call (k := 0) (isFunction (by decide) : IsFunction "printf")
      (.cons (.text "-%d months") (.cons (hrest.mono (by decide)) .nil)) (by simp)
    rw [renderTrunc_quarter]
    exact hdate rfl (.cons (.text "start of month") (.cons hprintf .nil))

/-- What stands in the text of a setting: SQLite, and a WHERE clause for the conditions. -/
structure Repeats (schema : Table) (conditions : List Sql) (s : Setting) : Prop where
  dialect : s.dialect = .sqlite
  clause : ∃ condition : Option Expr, Option.Rel (Reads 0)
    (if s.filters.isEmpty then none else some (join " AND " s.filters)) condition ∧ Keeps schema conditions condition

def Renders (schema : Table) (conditions : List Sql) (s : Setting) (k : ValueClass) (x : Sql) : Prop :=
  ∃ e, Agrees schema conditions x e ∧ Written schema k x.strength (x.render s) e

namespace Renders

variable {s : Setting} {k : ValueClass} {n : Nat} {x y z : Sql}

theorem exists_forall₂ {α β : Type} {R : α → β → Prop} {items : List α} (h : ∀ x ∈ items, ∃ e, R x e) :
    ∃ es, List.Forall₂ R items es := by
  induction items with
  | nil => exact ⟨[], .nil⟩
  | cons x rest ih =>
    obtain ⟨e, he⟩ := h x (List.mem_cons_self ..)
    obtain ⟨es, hes⟩ := ih fun x hx => h x (List.mem_cons_of_mem _ hx)
    exact ⟨e :: es, .cons he hes⟩

/-- As an argument, where everything up to the next break is read. -/
theorem argument (h : Renders schema conditions s k x) :
    ∃ e, Reads 0 (x.render s) e ∧ Agrees schema conditions x e := by
  obtain ⟨e, hagrees, hwritten⟩ := h
  obtain ⟨e', hreads, hsame⟩ := hwritten.reads
  exact ⟨e', hreads.mono (Nat.zero_le _), hsame.agrees hagrees⟩

/-- In parentheses unless it is an operand. -/
theorem guarded (h : Renders schema conditions s k x) :
    ∃ e, Reads 9 (guard x atomic false (x.render s)) e ∧ Agrees schema conditions x e := by
  obtain ⟨e, hagrees, hwritten⟩ := h
  obtain ⟨e', hreads, hsame⟩ := hwritten.reads_guard_atomic
  exact ⟨e', hreads, hsame.agrees hagrees⟩

theorem compared (h : Renders schema conditions s k x) :
    ∃ e, Reads 6 (guard x 5 true (x.render s)) e ∧ Agrees schema conditions x e := by
  obtain ⟨e, hagrees, hwritten⟩ := h
  obtain ⟨e', hreads, hsame⟩ := (hwritten.guard_strict (show 5 ≤ 8 by decide)).reads
  exact ⟨e', hreads, hsame.agrees hagrees⟩

theorem arguments (h : ∀ x ∈ items, ∃ k, Renders schema conditions s k x) :
    ∃ es, List.Forall₂ (Reads 0) (Sql.renderAll s items) es ∧ List.Forall₂ (Agrees schema conditions) items es := by
  obtain ⟨es, hes⟩ := exists_forall₂ fun x hx => (h x hx).elim fun _ hrenders => hrenders.argument
  refine ⟨es, ?_, hes.imp fun _ _ hx => hx.2⟩
  rw [Sql.renderAll_eq, List.forall₂_map_left_iff]
  exact hes.imp fun _ _ hx => hx.1

section

variable {e : Expr} {text : String}

theorem atom (hx : x.WellTyped schema k) (hstrength : x.strength = 10) (hreads : Reads 10 (x.render s) e)
    (hagrees : Agrees schema conditions x e) (hplain : startsPlain (x.render s) = true) :
    Renders schema conditions s k x := by
  refine ⟨e, hagrees, ?_⟩
  rw [hstrength]
  exact .atom (hagrees.hasClass hx) (.of_reads hreads) hplain

theorem condition (hstrength : x.strength = n) (hlow : 3 < n) (hhigh : n < 7) (hx : x.WellTyped schema k)
    (hreads : Reads n (x.render s) e) (hagrees : Agrees schema conditions x e) : Renders schema conditions s k x := by
  refine ⟨e, hagrees, ?_⟩
  rw [hstrength]
  exact .condition (hagrees.hasClass hx) (.of_reads hreads) hlow hhigh

end

theorem text_arith (op : ArithOp) (a b : String) :
    a ++ " " ++ op.symbol ++ " " ++ b = a ++ (BinaryOp.arith op).text ++ b := by
  simp only [BinaryOp.text, String.append_assoc]

theorem number {op : ArithOp} (hop : op ≠ .concat) (hx : Renders schema conditions s .num x)
    (hy : Renders schema conditions s .num y) : Renders schema conditions s .num (.arith op x y) := by
  obtain ⟨d, hd, hwritten⟩ := hx
  obtain ⟨e, he, hwritten'⟩ := hy
  have hlow : op.precedence ≤ 8 := by cases op <;> decide
  have hstrength : (Sql.arith op x y).strength = op.precedence := by cases op <;> rfl
  refine ⟨.arith op d e, hd.arith op he, ?_⟩
  rw [hstrength]
  change Written schema .num op.precedence (_ ++ " " ++ op.symbol ++ " " ++ _) _
  rw [text_arith]
  refine .number hop (hwritten.guard (by omega)) ?_
  split
  · next hstrict =>
    rw [hstrict]
    exact hwritten'.guard_strict hlow
  · next hstrict =>
    rw [Bool.eq_false_iff.mpr hstrict]
    exact hwritten'.guard (by omega)

theorem addNull (hx : Renders schema conditions s .null x) (hy : Renders schema conditions s .null y) :
    Renders schema conditions s .null (.arith .add x y) := by
  obtain ⟨d, hd, hwritten⟩ := hx
  obtain ⟨e, he, hwritten'⟩ := hy
  refine ⟨.arith .add d e, hd.arith .add he, ?_⟩
  change Written schema .null 7 (_ ++ " " ++ ArithOp.add.symbol ++ " " ++ _) _
  rw [text_arith]
  exact .addNull (hwritten.guard (by decide)) (hwritten'.guard (by decide))

theorem concat (hx : Renders schema conditions s .text x) (hy : Renders schema conditions s .text y) :
    Renders schema conditions s .text (.arith .concat x y) := by
  obtain ⟨d, hd, hwritten⟩ := hx
  obtain ⟨e, he, hwritten'⟩ := hy
  refine ⟨.arith .concat d e, hd.arith .concat he, ?_⟩
  change Written schema .text 7 (_ ++ " " ++ ArithOp.concat.symbol ++ " " ++ _) _
  rw [text_arith]
  exact .concat (hwritten.guard (by decide)) (hwritten'.guard (by decide))

theorem neg (hx : Renders schema conditions s .num x) (hnumber : ∀ l, x = .literal l → l.number? = none) :
    Renders schema conditions s .num (.neg x) := by
  obtain ⟨e, he, hwritten⟩ := hx
  exact ⟨.neg e, he.neg, (hwritten.guard_atomic hnumber).neg⟩

theorem joined {settles : Bool} (hlength : 2 ≤ items.length) (h : ∀ x ∈ items, Renders schema conditions s .bool x) :
    Renders schema conditions s .bool (Sql.joined settles items) := by
  obtain ⟨es, hes⟩ := exists_forall₂ h
  refine ⟨joinedExpr settles es, .joined (hes.imp fun _ _ hx => hx.1) hlength, ?_⟩
  have hwritten : List.Forall₂ (Written schema .bool (connective settles).level)
      (Sql.renderGuarded s (connective settles).level items) es := by
    rw [Sql.renderGuarded_eq, List.forall₂_map_left_iff]
    refine hes.imp fun _ _ hx => hx.2.guard ?_
    cases settles <;> decide
  have hjoined := Written.joined hwritten (hes.length_eq ▸ hlength)
  cases settles with
  | false => exact hjoined
  | true => exact hjoined

theorem compare {op : CompareOp} (hwt : (Sql.compare op x y).WellTyped schema .bool)
    (hx : Renders schema conditions s k x) (hy : Renders schema conditions s j y) :
    Renders schema conditions s .bool (.compare op x y) := by
  obtain ⟨d, hreads, hd⟩ := hx.compared
  obtain ⟨e, hreads', he⟩ := hy.compared
  have htext (a b : String) : a ++ " " ++ op.symbol ++ " " ++ b = a ++ (BinaryOp.compare op).text ++ b := by
    simp only [BinaryOp.text, String.append_assoc]
  refine .condition (n := 5) rfl (by decide) (by decide) hwt ?_ (hd.compare op he)
  change Reads 5 (_ ++ " " ++ op.symbol ++ " " ++ _) _
  rw [htext]
  exact hreads.binary (BinaryOp.compare op).opens_text (BinaryOp.compare op).breaks_text
    (BinaryOp.compare op).binary?_token hreads' (show 5 ≤ 6 by decide) (show 5 < 6 by decide)

theorem not (hwt : (Sql.not x).WellTyped schema .bool) (hx : Renders schema conditions s k x) :
    Renders schema conditions s .bool (.not x) := by
  obtain ⟨e, hreads, he⟩ := hx.guarded
  exact .condition (n := 4) rfl (by decide) (by decide) hwt (hreads.not (by decide)) he.not

theorem isNull {negated : Bool} (hwt : (Sql.isNull x negated).WellTyped schema .bool)
    (hx : Renders schema conditions s k x) : Renders schema conditions s .bool (.isNull x negated) := by
  obtain ⟨e, hreads, he⟩ := hx.compared
  exact .condition (n := 5) rfl (by decide) (by decide) hwt (hreads.isNull (by decide) negated) (he.isNull negated)

theorem between {i j : ValueClass} (hwt : (Sql.between x y z).WellTyped schema .bool)
    (hx : Renders schema conditions s k x) (hy : Renders schema conditions s i y)
    (hz : Renders schema conditions s j z) : Renders schema conditions s .bool (.between x y z) := by
  obtain ⟨d, hreads, hd⟩ := hx.compared
  obtain ⟨e, hreads', he⟩ := hy.compared
  obtain ⟨f, hreads'', hf⟩ := hz.compared
  exact .condition (n := 5) rfl (by decide) (by decide) hwt (hreads.between hreads' hreads'' (by decide) (by decide))
    (hd.between he hf)

theorem inList {negated : Bool} (hwt : (Sql.inList x items negated).WellTyped schema .bool)
    (hx : Renders schema conditions s k x) (hitems : ∀ y ∈ items, ∃ k, Renders schema conditions s k y) :
    Renders schema conditions s .bool (.inList x items negated) := by
  obtain ⟨e, hreads, he⟩ := hx.compared
  obtain ⟨es, hreads', hes⟩ := arguments hitems
  have hagrees := he.inList hes negated
  cases negated with
  | false => exact .condition (n := 5) rfl (by decide) (by decide) hwt (hreads.inList hreads' (by decide)) hagrees
  | true =>
    exact .atom hwt rfl (hreads.notInList hreads' (by decide)) hagrees
      (startsPlain_append (startsPlain_append (startsPlain_append (startsPlain_append rfl _) _) _) _)

theorem cast {type : CastType} (hwt : (Sql.cast x type).WellTyped schema k)
    (hx : Renders schema conditions s j x) : Renders schema conditions s k (.cast x type) := by
  obtain ⟨e, hreads, he⟩ := hx.argument
  exact .atom hwt rfl (hreads.cast type) (he.cast type)
    (startsPlain_append (startsPlain_append (startsPlain_append (startsPlain_append rfl _) _) _) _)

theorem func {args : List Sql} (hwt : (Sql.func name args).WellTyped schema k)
    (hname : name ∈ functionNames) (hne : args ≠ []) (hargs : ∀ x ∈ args, ∃ k, Renders schema conditions s k x) :
    Renders schema conditions s k (.func name args) := by
  obtain ⟨es, hreads, hes⟩ := arguments hargs
  have htexts : Sql.renderAll s args ≠ [] := by
    rw [Sql.renderAll_eq]
    simpa using hne
  exact .atom hwt rfl (.call (isFunction hname) hreads htexts) (.call name hes)
    (startsPlain_append (startsPlain_append (startsPlain_append (startsPlain_functionName hname) _) _) _)

theorem countAll : Renders schema conditions s .num (.func "count" [.star]) := by
  have hreads : Reads 10 "count(*)" (.call "count" [.star]) :=
    ⟨_, ⟨_, _, _, rfl, rfl, rfl⟩, .callStar (isFunction (by decide)).plain⟩
  exact .atom .countAll rfl hreads .countAll (show startsPlain "count(*)" = true from rfl)

theorem countDistinct (hwt : (Sql.countDistinct x).WellTyped schema k)
    (hx : Renders schema conditions s j x) : Renders schema conditions s k (.countDistinct x) := by
  obtain ⟨e, hreads, he⟩ := hx.guarded
  exact .atom hwt rfl hreads.countDistinct he.countDistinct (startsPlain_append (startsPlain_append rfl _) _)

theorem dateTrunc (hdialect : s.dialect = .sqlite) {unit : TruncUnit} {datetime : Bool}
    (hwt : (Sql.dateTrunc unit x datetime).WellTyped schema k) (hx : Renders schema conditions s j x) :
    Renders schema conditions s k (.dateTrunc unit x datetime) := by
  obtain ⟨e, hreads, he⟩ := hx.argument
  have htext : (Sql.dateTrunc unit x datetime).render s = renderTrunc unit (x.render s) datetime .sqlite := by
    rw [← hdialect]
    rfl
  refine .atom hwt rfl ?_ (he.dateTrunc unit datetime) ?_
  · rw [htext]
    exact reads_renderTrunc hreads unit datetime
  · rw [htext]
    cases unit with
    | quarter => exact startsPlain_append (startsPlain_append (startsPlain_append (startsPlain_append rfl _) _) _) _
    | _ => exact startsPlain_append (startsPlain_append rfl _) _

theorem renderWhens_eq (whens : List (Sql × Sql)) : Sql.renderWhens s whens =
    whenTexts (whens.map fun w => (guard w.1 atomic false (w.1.render s), w.2.render s)) := by
  induction whens with
  | nil => rfl
  | cons w rest ih => exact congrArg (List.cons _) ih

theorem case {whens : List (Sql × Sql)} {otherwise : Option Sql} (hwt : (Sql.case whens otherwise).WellTyped schema k)
    (hne : whens ≠ []) (hconditions : ∀ w ∈ whens, Renders schema conditions s .bool w.1)
    (hvalues : ∀ w ∈ whens, Renders schema conditions s k w.2)
    (hotherwise : ∀ x, otherwise = some x → Renders schema conditions s k x) :
    Renders schema conditions s k (.case whens otherwise) := by
  obtain ⟨ws, hws⟩ : ∃ ws : List (Expr × Expr), List.Forall₂ (fun x w =>
      (Reads 0 (guard x.1 atomic false (x.1.render s)) w.1 ∧ Reads 0 (x.2.render s) w.2) ∧
        Agrees schema conditions x.1 w.1 ∧ Agrees schema conditions x.2 w.2) whens ws := by
    refine exists_forall₂ fun w hw => ?_
    obtain ⟨d, hreads, hd⟩ := (hconditions w hw).guarded
    obtain ⟨e, hreads', he⟩ := (hvalues w hw).argument
    exact ⟨(d, e), ⟨hreads.mono (by decide), hreads'⟩, hd, he⟩
  obtain ⟨o, hreads, ho⟩ : ∃ o : Option Expr, Option.Rel (Reads 0) (otherwise.map (Sql.render s)) o ∧
      Option.Rel (Agrees schema conditions) otherwise o := by
    cases otherwise with
    | none => exact ⟨none, .none, .none⟩
    | some x =>
      obtain ⟨e, hreads, he⟩ := (hotherwise x rfl).argument
      exact ⟨some e, .some hreads, .some he⟩
  have helse : Sql.renderElse s otherwise = (otherwise.map (Sql.render s)).elim "" (" ELSE " ++ ·) := by
    cases otherwise <;> rfl
  have htext : (Sql.case whens otherwise).render s = "CASE" ++ String.join (Sql.renderWhens s whens) ++
      Sql.renderElse s otherwise ++ " END" := rfl
  refine .atom hwt rfl ?_ (.case (hws.imp fun _ _ hw => hw.2) ho) ?_
  · rw [htext, renderWhens_eq, helse]
    refine .case ?_ ?_ hreads
    · rintro rfl
      cases hws
      exact hne rfl
    · rw [List.forall₂_map_left_iff]
      exact hws.imp fun _ _ hw => hw.1
  · rw [htext]
    exact startsPlain_append (startsPlain_append (startsPlain_append rfl _) _) _

theorem total (hs : Repeats schema conditions s) (htable : NamesTable schema.name)
    (hwt : (Sql.total schema.name x).WellTyped schema k) (hx : Renders schema conditions s j x) :
    Renders schema conditions s k (.total schema.name x) := by
  obtain ⟨e, hreads, he⟩ := hx.argument
  obtain ⟨condition, hclause, hkeeps⟩ := hs.clause
  have hwhere : (if s.filters.isEmpty then "" else " WHERE " ++ join " AND " s.filters) =
      (if s.filters.isEmpty then none else some (join " AND " s.filters)).elim "" (" WHERE " ++ ·) := by
    split <;> rfl
  have htext : (Sql.total schema.name x).render s = "(SELECT " ++ x.render s ++ " FROM " ++ schema.name ++
      (if s.filters.isEmpty then "" else " WHERE " ++ join " AND " s.filters) ++ ")" := rfl
  refine .atom hwt rfl ?_ (he.total hkeeps) ?_
  · rw [htext, hwhere]
    exact .select hreads htable hclause
  · rw [htext]
    exact startsPlain_append (startsPlain_append (startsPlain_append (startsPlain_append (startsPlain_append rfl _) _)
      _) _) _

theorem column (hwt : (Sql.column schema.name name).WellTyped schema k)
    (htable : NamesTable schema.name) (hname : isBareName name = true) :
    Renders schema conditions s k (.column schema.name name) := by
  have hstart {table : String} (h : isBareName table = true) : startsPlain table = true := by
    obtain ⟨c, rest, htable, hc, -⟩ := isBareName_chars h
    have hdash : c ≠ '-' := by
      rintro rfl
      exact absurd hc (by decide)
    have harrow : c ≠ '>' := by
      rintro rfl
      exact absurd hc (by decide)
    simp [startsPlain, htable, hdash, harrow]
  have hplain : startsPlain schema.name = true := by
    generalize schema.name = table at htable
    cases htable with
    | bare htable => exact hstart (isBareName_of_isTableName htable)
    | qualified hdatabase _ =>
      exact startsPlain_append (startsPlain_append (hstart (isBareName_of_isTableName hdatabase)) _) _
  exact .atom hwt rfl (.column htable hname) (.column name) (startsPlain_append (startsPlain_append hplain _) _)

theorem literal {l : Literal} (hmachine : l.isMachine = true) (hdigits : l.keepsDigits = true) :
    Renders schema conditions s l.valueClass (.literal l) := by
  have htext (t : String) : startsPlain (quoteText t) = true := by simp [startsPlain, quoteText]
  cases l with
  | null => exact .atom (.literal _) rfl .null (.literal rfl) (show startsPlain "NULL" = true from rfl)
  | bool b =>
    have hplain : startsPlain (if b then "true" else "false") = true := by cases b <;> rfl
    exact .atom (.literal _) rfl (.bool b) (.literal rfl) hplain
  | int n =>
    obtain ⟨e, hreads, he⟩ := reads_int hmachine
    exact ⟨e, he, .signed (he.hasClass (.literal (.int n))) (.of_reads hreads)⟩
  | float x =>
    obtain ⟨e, hreads, he⟩ := reads_float hmachine hdigits
    exact ⟨e, he, .signed (he.hasClass (.literal (.float x))) (.of_reads hreads)⟩
  | text t => exact .atom (.literal _) rfl (.text t) (.literal rfl) (htext t)
  | date d => exact .atom (.literal _) rfl (.text d.text) (.literal rfl) (htext d.text)
  | datetime m => exact .atom (.literal _) rfl (.text m.text) (.literal rfl) (htext m.text)

end Renders

theorem renders_of_wellTyped {s : Setting} (hs : Repeats schema conditions s) {k : ValueClass} {x : Sql}
    (h : x.WellTyped schema k) : x.Everywhere Sql.IsLegible → Renders schema conditions s k x := by
  induction h with
  | weaken hle _ ih =>
    intro hx
    obtain ⟨e, he, hwritten⟩ := ih hx
    exact ⟨e, he, hwritten.weaken hle⟩
  | column hcolumn hidentifier husable =>
    intro hx
    obtain ⟨htable, hname⟩ := hx _ .self
    exact .column (.column hcolumn hidentifier husable) htable hname
  | literal l =>
    intro hx
    obtain ⟨hmachine, hdigits⟩ := hx _ .self
    exact .literal hmachine hdigits
  | number hop _ _ ihl ihr =>
    intro hx
    exact .number hop (ihl (hx.child (.head _))) (ihr (hx.child (.tail _ (.head _))))
  | addNull _ _ ihl ihr =>
    intro hx
    exact .addNull (ihl (hx.child (.head _))) (ihr (hx.child (.tail _ (.head _))))
  | concat _ _ ihl ihr =>
    intro hx
    exact .concat (ihl (hx.child (.head _))) (ihr (hx.child (.tail _ (.head _))))
  | neg _ hnumber ih => exact fun hx => .neg (ih (hx.child (.head _))) hnumber
  | compare hl hr ihl ihr =>
    intro hx
    exact .compare (.compare hl hr) (ihl (hx.child (.head _))) (ihr (hx.child (.tail _ (.head _))))
  | and hlength _ ih =>
    intro hx
    have hjoined : Renders schema conditions s .bool (Sql.joined false _) :=
      .joined hlength fun y hy => ih y hy (hx.child hy)
    exact hjoined
  | or hlength _ ih =>
    intro hx
    have hjoined : Renders schema conditions s .bool (Sql.joined true _) :=
      .joined hlength fun y hy => ih y hy (hx.child hy)
    exact hjoined
  | not hwt hplain ih => exact fun hx => .not (.not hwt hplain) (ih (hx.child (.head _)))
  | isNull hwt ih => exact fun hx => .isNull (.isNull hwt) (ih (hx.child (.head _)))
  | inList hwt hitems ih ihitems =>
    intro hx
    exact .inList (.inList hwt hitems) (ih (hx.child (.head _))) fun y hy => ⟨_, ihitems y hy (hx.child (.tail _ hy))⟩
  | between hwt hlow hhigh ih ihlow ihhigh =>
    intro hx
    exact .between (.between hwt hlow hhigh) (ih (hx.child (.head _))) (ihlow (hx.child (.tail _ (.head _))))
      (ihhigh (hx.child (.tail _ (.tail _ (.head _)))))
  | castFloat hwt ih => exact fun hx => .cast (.castFloat hwt) (ih (hx.child (.head _)))
  | castText hwt ih => exact fun hx => .cast (.castText hwt) (ih (hx.child (.head _)))
  | castInt hwt ih => exact fun hx => .cast (.castInt hwt) (ih (hx.child (.head _)))
  | case hne hconditions hvalues hotherwise ihconditions ihvalues ihotherwise =>
    intro hx
    have hwhen {y : Sql} {w : Sql × Sql} (hw : w ∈ _) (hy : y ∈ [w.1, w.2]) : y.Everywhere Sql.IsLegible :=
      hx.child (List.mem_append_left _ (List.mem_flatMap.mpr ⟨w, hw, hy⟩))
    refine .case (.case hne hconditions hvalues hotherwise) hne (fun w hw => ihconditions w hw (hwhen hw (.head _)))
      (fun w hw => ihvalues w hw (hwhen hw (.tail _ (.head _)))) fun y hy => ihotherwise y hy ?_
    exact hx.child (List.mem_append_right _ (Option.mem_toList.mpr hy))
  | coalesce hne hargs ih =>
    exact fun hx => .func (.coalesce hne hargs) (by decide) hne fun y hy => ⟨_, ih y hy (hx.child hy)⟩
  | scalar hname hne hargs ih =>
    intro hx
    have hfunction : ["substr", "lower"] ⊆ functionNames := by decide
    exact .func (.scalar hname hne hargs) (hfunction hname) hne fun y hy => ⟨_, ih y hy (hx.child hy)⟩
  | sum hname hwt ih =>
    intro hx
    have hfunction : ["sum", "avg"] ⊆ functionNames := by decide
    exact .func (.sum hname hwt) (hfunction hname) (by simp)
      (List.forall_mem_singleton.mpr ⟨_, ih (hx.child (.head _))⟩)
  | extremum hname hwt ih =>
    intro hx
    have hfunction : ["min", "max"] ⊆ functionNames := by decide
    exact .func (.extremum hname hwt) (hfunction hname) (by simp)
      (List.forall_mem_singleton.mpr ⟨_, ih (hx.child (.head _))⟩)
  | count hwt ih =>
    intro hx
    exact .func (.count hwt) (by decide) (by simp) (List.forall_mem_singleton.mpr ⟨_, ih (hx.child (.head _))⟩)
  | countAll => exact fun _ => .countAll
  | countDistinct hwt ih => exact fun hx => .countDistinct (.countDistinct hwt) (ih (hx.child (.head _)))
  | percentile => exact fun hx => (hx _ .self).elim
  | dateTrunc hwt ih => exact fun hx => .dateTrunc hs.dialect (.dateTrunc hwt) (ih (hx.child (.head _)))
  | total hwt ih => exact fun hx => .total hs (hx _ .self) (.total hwt) (ih (hx.child (.head _)))

/-- Conditions that are joined by AND keep the rows that satisfy each of them. -/
theorem keeps_joinedExpr {es : List Expr} (h : List.Forall₂ (Agrees schema []) conditions es) (hne : es ≠ []) :
    Keeps schema conditions (some (joinedExpr false es)) := by
  intro d hd row hrow
  change (d.primitives.truth _ == some true) = _
  rw [truth_joinedExpr d _ hne, kleene_false_eq_true, List.all_map]
  clear hne
  induction h with
  | nil => rfl
  | cons hx _ ih =>
    have hvalue := hx.value d hd _ (hd.scope hrow)
    rw [Database.frame, Database.kept_nil] at hvalue
    rw [List.all_cons, List.all_cons, ih, Function.comp_apply, hvalue]
    rfl

theorem repeats_conditions (h : ∀ x ∈ conditions, Renders schema [] ⟨.sqlite, []⟩ .bool x) :
    Repeats schema conditions ⟨.sqlite, conditions.map (Sql.renderConjunct ⟨.sqlite, []⟩)⟩ := by
  refine ⟨rfl, ?_⟩
  obtain ⟨es, hes⟩ := Renders.exists_forall₂ h
  have hwritten : List.Forall₂ (Written schema .bool 3) (conditions.map (Sql.renderConjunct ⟨.sqlite, []⟩)) es := by
    rw [List.forall₂_map_left_iff]
    exact hes.imp fun _ _ hx => hx.2.guard (by decide)
  have hagree : List.Forall₂ (Agrees schema []) conditions es := hes.imp fun _ _ hx => hx.1
  cases conditions with
  | nil => exact ⟨none, .none, fun _ _ _ _ => rfl⟩
  | cons x rest =>
    cases hwritten with
    | cons hx hrest =>
      -- the clause is read with its conditions grouped to the left, and has the value of `joinedExpr`
      have hfirst : ReadsAs schema (connective false).level _ _ := hx.reads
      obtain ⟨e, hreads, hsame⟩ := readsAs_join hfirst (hrest.imp fun _ _ hy => hy.conjunct (by decide))
      refine ⟨some e, .some (hreads.mono (Nat.zero_le _)), fun d hd row hrow => ?_⟩
      rw [← keeps_joinedExpr hagree (by simp) d hd row hrow]
      exact congrArg (fun v => d.primitives.truth v == some true) (hsame.value d hd _ (hd.scope hrow))

end Reader

end ShelfQuery.Sql
