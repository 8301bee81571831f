import ShelfQuery.Proofs.Recipe.ColumnFields

set_option autoImplicit false

namespace ShelfQuery.Recipe

open ShelfQuery.Expression ShelfQuery.Shelf ShelfQuery.Sql ShelfQuery.Data ShelfQuery.Schema ShelfQuery.Calendar

def operatorOf : Comparison → String
  | .eq => "eq"
  | .ne => "ne"
  | .lt => "lt"
  | .le => "lte"
  | .gt => "gt"
  | .ge => "gte"

section

variable {i : Ingredient} {now : DateTime}

theorem str_of_isText {v : Json} {l : Literal} (h : suits i.value.datatype now v = true)
    (hl : literalOf i.value.datatype now v = .ok l) (htext : isText l = true) : i.value.datatype = .str := by
  rw [(literalOf_kind hl).2, Bool.and_eq_true_iff] at htext
  obtain ⟨hstr, htemporal⟩ := htext
  cases v with
  | str s =>
    rcases Bool.or_eq_true_iff.mp (Bool.and_eq_true_iff.mp h).2 with heq | hmoment
    · exact beq_iff_eq.mp heq
    · rw [(Bool.and_eq_true_iff.mp hmoment).1] at htemporal
      cases htemporal
  | _ => cases hstr

theorem filterColumn_eq {texts : Bool} (h : texts = true → i.value.datatype = .str) :
    filterColumn i texts = i.value.sql := by
  unfold filterColumn
  rw [if_neg]
  intro hcast
  obtain ⟨htexts, hother⟩ := Bool.and_eq_true_iff.mp hcast
  rw [h htexts] at hother
  cases hother

theorem buildFilter_comparison (op : Comparison) {v : Json} {l : Literal} (h : suits i.value.datatype now v = true)
    (hl : literalOf i.value.datatype now v = .ok l) :
    buildFilter i now (some (operatorOf op)) v = .ok (compareWith op.op i.value.sql l) := by
  have hfilter : buildFilter i now (some (operatorOf op)) v = scalarFilter i now (operatorOf op) v := by
    cases v with
    | arr | obj => cases (Bool.and_eq_true_iff.mp h).1
    | _ => rfl
  have hcolumn := filterColumn_eq (str_of_isText h hl)
  rw [hfilter]
  cases op <;> simp only [scalarFilter, operatorOf, hl, comparison?, hcolumn] <;> rfl

theorem buildFilter_range {low high : Json} {l h : Literal} (hlow : suits i.value.datatype now low = true)
    (hhigh : suits i.value.datatype now high = true) (hl : literalOf i.value.datatype now low = .ok l)
    (hh : literalOf i.value.datatype now high = .ok h) :
    buildFilter i now (some "between") (.arr [low, high]) = .ok (.between i.value.sql (.literal l) (.literal h)) := by
  have hcolumn : filterColumn i (isText l || isText h) = i.value.sql := by
    apply filterColumn_eq
    intro htexts
    exact (Bool.or_eq_true_iff.mp htexts).elim (str_of_isText hlow hl) (str_of_isText hhigh hh)
  rw [buildFilter_arr, Option.getD_some, ← hcolumn]
  simp only [listFilter, hl, hh]
  rfl

end

theorem compareWith_eq (op : CompareOp) (x : Sql) (l : Literal) :
    compareWith op x l =
      if l.value.isNull && (op == .eq || op == .ne) then .isNull x (op == .ne) else .compare op x (.literal l) := by
  cases l <;> cases op <;> rfl

section

variable (p : Primitives) (f : Frame)

theorem truthIn_compareWith (op : CompareOp) (x : Sql) {l l' : Literal} (h : l'.value = l.value) :
    (compareWith op x l').truthIn p f = (compareWith op x l).truthIn p f := by
  have hcompare : (Sql.compare op x (.literal l')).truthIn p f = (Sql.compare op x (.literal l)).truthIn p f :=
    congrArg (fun v => p.truth (.ofTruth (p.holds op (x.eval p f) v))) h
  rw [compareWith_eq, compareWith_eq, h]
  by_cases hnull : (l.value.isNull && (op == .eq || op == .ne)) = true
  · rw [if_pos hnull, if_pos hnull]
  · rw [if_neg hnull, if_neg hnull, hcompare]

theorem truthIn_between (x : Sql) (l h : Literal) :
    (Sql.between x (.literal l) (.literal h)).truthIn p f =
      Engine.allTrue [p.holds .ge (x.eval p f) l.value, p.holds .le (x.eval p f) h.value] :=
  Primitives.truth_ofTruth _

end

def textPlace (s : String) : List ℚ := textKey s.toList

theorem textPlace_lt_iff (s t : String) : textPlace s < textPlace t ↔ compareTexts t s = .gt := by
  rw [compareTexts_gt_iff, textPlace, textPlace, textKey_lt_iff]

theorem holds_ge_text (p : Primitives) (s t : String) :
    p.holds .ge (.text s) (.text t) = some true ↔ textPlace t ≤ textPlace s := by
  rw [← not_lt, textPlace_lt_iff, compareTexts_swap]
  change holdsFor .ge (compareTexts s t) = some true ↔ _
  cases compareTexts s t <;> decide

theorem holds_le_text (p : Primitives) (s t : String) :
    p.holds .le (.text s) (.text t) = some true ↔ textPlace s ≤ textPlace t := by
  rw [← not_lt, textPlace_lt_iff]
  change holdsFor .le (compareTexts s t) = some true ↔ _
  cases compareTexts s t <;> decide

theorem allTrue_pair (a b : Option Bool) : Engine.allTrue [a, b] = some true ↔ a = some true ∧ b = some true := by
  rcases a with _ | _ | _ <;> rcases b with _ | _ | _ <;> decide

theorem keeps_moments {p : Primitives} {f : Frame} {table name : String} (hclass : (f.column name).HasClass .text)
    (m n : DateTime) :
    (Sql.between (.column table name) (.literal (.datetime m)) (.literal (.datetime n))).truthIn p f = some true ↔
      ∃ s, f.column name = .text s ∧ textPlace m.text ≤ textPlace s ∧ textPlace s ≤ textPlace n.text := by
  have hcolumn : (Sql.column table name).eval p f = f.column name := rfl
  have htext (m : DateTime) : (Literal.datetime m).value = .text m.text := rfl
  rw [truthIn_between, allTrue_pair, hcolumn, htext, htext]
  generalize f.column name = v at hclass
  cases hclass with
  | null =>
    constructor
    · rintro ⟨h, -⟩
      cases h
    · rintro ⟨s, hs, -⟩
      cases hs
  | text s =>
    rw [holds_ge_text, holds_le_text]
    constructor
    · intro h
      exact ⟨s, rfl, h⟩
    · rintro ⟨t, ht, h⟩
      cases ht
      exact h

theorem textPlace_day (d : Date) : textPlace (DateTime.startOfDay d).text < textPlace (DateTime.endOfDay d).text := by
  have htext (m : DateTime) : m.text.toList = (m.date.text ++ " ").toList ++ m.time.text.toList := by
    rw [DateTime.text, String.toList_append]
  rw [textPlace, textPlace, textKey_lt_iff, htext, htext]
  have htimes : Text.before Time.midnight.text.toList Time.lastMoment.text.toList = true := by decide
  exact (Text.before_append_left _ _ _).trans htimes

/-- Whether the upper bound of a range is exactly at midnight and the lower bound is not after the end of that day,
as texts. -/
def overruns : Literal → Literal → Bool
  | .datetime m, .datetime n =>
    decide (n.time = .midnight) && compareTexts m.text (DateTime.endOfDay n.date).text != .gt
  | _, _ => false

/-- In any database, the two conditions keep the same of the rows whose value in the column is of the class. -/
def KeepAlike (name : String) (k : ValueClass) (x y : Sql) : Prop :=
  ∀ p f, (f.column name).HasClass k → (x.truthIn p f = some true ↔ y.truthIn p f = some true)

theorem keepAlike_day_iff (m : DateTime) (d : Date) (table name : String) :
    KeepAlike name .text
      (.between (.column table name) (.literal (.datetime m)) (.literal (.datetime (.endOfDay d))))
      (.between (.column table name) (.literal (.datetime m)) (.literal (.datetime (.startOfDay d)))) ↔
      textPlace (DateTime.endOfDay d).text < textPlace m.text := by
  have hday := textPlace_day d
  constructor
  · intro h
    by_contra hlate
    -- the last moment of the day is in the longer range only
    let f : Frame := ⟨[], [], some fun _ => .text (DateTime.endOfDay d).text⟩
    have hclass : (f.column name).HasClass .text := .text _
    have hlast := (h bareDatabase f hclass).mp ((keeps_moments hclass _ _).mpr ⟨_, rfl, not_lt.mp hlate, le_refl _⟩)
    obtain ⟨s, hs, -, hle⟩ := (keeps_moments hclass _ _).mp hlast
    cases hs
    exact absurd hday (not_lt.mpr hle)
  · intro hlate p f hclass
    rw [keeps_moments hclass, keeps_moments hclass]
    constructor
    · rintro ⟨s, -, hlow, hhigh⟩
      exact absurd hlate (not_lt.mpr (hlow.trans hhigh))
    · rintro ⟨s, -, hlow, hhigh⟩
      exact absurd hlate (not_lt.mpr ((hlow.trans hhigh).trans hday.le))

theorem exists_startOfDay {n : DateTime} (h : n.time = .midnight) : ∃ d, n = .startOfDay d := by
  obtain ⟨d, time⟩ := n
  cases h
  exact ⟨d, rfl⟩

theorem overruns_startOfDay (m : DateTime) (d : Date) :
    overruns (.datetime m) (.datetime (.startOfDay d)) = (compareTexts m.text (DateTime.endOfDay d).text != .gt) := by
  have htime : (DateTime.startOfDay d).time = .midnight := rfl
  have hdate : (DateTime.startOfDay d).date = d := rfl
  rw [overruns, htime, hdate, decide_eq_true rfl, Bool.true_and]

theorem keepAlike_dayEnd_iff {k : ValueClass} {l h : Literal} (table name : String)
    (hmoments : ∀ n, h = .datetime n → k = .text ∧ (l = .null ∨ ∃ m, l = .datetime m)) :
    KeepAlike name k (.between (.column table name) (.literal l) (.literal (dayEnd h)))
      (.between (.column table name) (.literal l) (.literal h)) ↔ overruns l h = false := by
  have hsame (hend : dayEnd h = h) (hfalse : overruns l h = false) :
      KeepAlike name k (.between (.column table name) (.literal l) (.literal (dayEnd h)))
        (.between (.column table name) (.literal l) (.literal h)) ↔ overruns l h = false := by
    rw [hend]
    exact ⟨fun _ => hfalse, fun _ _ _ _ => Iff.rfl⟩
  cases h with
  | datetime n =>
    obtain ⟨rfl, hl⟩ := hmoments n rfl
    by_cases hmidnight : n.time = .midnight
    · obtain ⟨d, rfl⟩ := exists_startOfDay hmidnight
      rcases hl with rfl | ⟨m, rfl⟩
      · -- nothing lies after null, so that the upper bound does not matter
        refine ⟨fun _ => rfl, fun _ p f _ => ?_⟩
        have hnull (v : Sql.Value) : p.holds .ge v Literal.null.value = none := by
          simp [Primitives.holds, Literal.value, Value.isNull]
        rw [truthIn_between, truthIn_between, allTrue_pair, allTrue_pair, hnull]
        simp
      · refine (keepAlike_day_iff m d table name).trans ?_
        rw [textPlace_lt_iff, overruns_startOfDay, bne_eq_false_iff_eq]
    · refine hsame (congrArg Literal.datetime (if_neg hmidnight)) ?_
      cases l <;> simp [overruns, hmidnight]
  | _ =>
    apply hsame rfl
    cases l <;> rfl

/-- On a column, the filter of a comparison is the expression that says the same, and the filter of a range is the
expression but for the upper bound: the expression takes a datetime exactly at midnight for its whole day. Then the
two ranges keep the same rows only if the lower bound lies after the end of that day. As the least integer of a word
is written in another way, only the rows are the same there. -/
theorem buildFilter_agrees {w : Workbench} {i : Ingredient} {name : String} {column : Column} (options : Options)
    (hcolumn : w.schema.find? name = some column) (husable : column.datatype.isUsable = true)
    (hvalue : w.field (columnText name) withoutAggregation = .ok i.value)
    (hdates : options.dates = none) (hdatetimes : options.datetimes = none) :
    (∀ op v, suits column.datatype w.now v = true → ∃ x y, buildFilter i w.now (some (operatorOf op)) v = .ok x ∧
      w.field (comparisonText name op v) options = .ok ⟨y, .bool, false⟩ ∧ (v ≠ leastWord → y = x) ∧
      ∀ p f, y.truthIn p f = x.truthIn p f) ∧
    ∀ low high, suits column.datatype w.now low = true → suits column.datatype w.now high = true → ∃ l h y,
      buildFilter i w.now (some "between") (.arr [low, high]) = .ok (.between i.value.sql (.literal l) (.literal h)) ∧
      w.field (rangeText name low high) options = .ok ⟨y, .bool, false⟩ ∧
      (low ≠ leastWord → high ≠ leastWord → y = .between i.value.sql (.literal l) (.literal (dayEnd h))) ∧
      (KeepAlike column.name (.ofDataType column.datatype) y (.between i.value.sql (.literal l) (.literal h)) ↔
        overruns l h = false) := by
  rw [field_column hcolumn husable] at hvalue
  have hfield := Except.ok.inj hvalue
  have hsql : i.value.sql = .column w.schema.name column.name := by rw [← hfield]
  have hdatatype : i.value.datatype = column.datatype := by rw [← hfield]
  refine ⟨fun op v hv => ?_, fun low high hlow hhigh => ?_⟩
  · obtain ⟨l, l', hl, hmatches, hexpression⟩ := field_comparison hcolumn husable hdates hdatetimes op hv
    rw [← hdatatype] at hv hl
    refine ⟨_, _, buildFilter_comparison op hv hl, hexpression, fun hv => ?_, fun p f => ?_⟩
    · rw [hmatches.1 hv, hsql]
    · rw [hsql]
      exact truthIn_compareWith p f op.op _ hmatches.2
  · obtain ⟨l, l', h, h', hl, hh, hmatches, hmatches', hexpression⟩ :=
      field_range hcolumn husable hdates hdatetimes hlow hhigh
    have hmoments : ∀ n, h = .datetime n →
        ValueClass.ofDataType column.datatype = .text ∧ (l = .null ∨ ∃ m, l = .datetime m) := by
      rintro n rfl
      have hdatetime := datetime_of_literalOf hh
      rw [hdatetime] at hlow hl ⊢
      exact ⟨rfl, literalOf_datetime hlow hl⟩
    have hrows := keepAlike_dayEnd_iff w.schema.name column.name hmoments
    rw [← hdatatype] at hlow hhigh hl hh
    refine ⟨l, h, _, buildFilter_range hlow hhigh hl hh, hexpression, fun hlow hhigh => ?_, ?_⟩
    · rw [hmatches.1 hlow, hmatches'.1 hhigh, hsql]
    · have htruth (p : Primitives) (f : Frame) :
          (Sql.between (.column w.schema.name column.name) (.literal l') (.literal h')).truthIn p f =
            (Sql.between (.column w.schema.name column.name) (.literal l) (.literal (dayEnd h))).truthIn p f := by
        rw [truthIn_between, truthIn_between, hmatches.2, hmatches'.2]
      rw [hsql]
      simp only [KeepAlike, htruth]
      exact hrows

/-- The last of January is in the expression and only its midnight is in the filter. -/
theorem buildFilter_agrees_january :
    let column : Column := ⟨"updated_at", .datetime⟩
    let w : Workbench := ⟨⟨"census", [column]⟩, .sqlite, .startOfDay ⟨2020, 1, 14, by decide⟩⟩
    let updated : Ingredient := ⟨"updated", .dimension, ⟨.column "census" "updated_at", .datetime, false⟩, none, none,
      .ascending, none, [], false, none, none, none⟩
    let low : Json := .str "2020-01-01"
    let high : Json := .str "2020-01-31"
    w.schema.find? "Updated_At" = some column ∧ column.datatype.isUsable = true ∧
    w.field (columnText "Updated_At") withoutAggregation = .ok updated.value ∧
    suits column.datatype w.now low = true ∧ suits column.datatype w.now high = true ∧
    rangeText "Updated_At" low high = "[Updated_At] BETWEEN \"2020-01-01\" AND \"2020-01-31\"" ∧
    ∃ x y, buildFilter updated w.now (some "between") (.arr [low, high]) = .ok x ∧
      w.field (rangeText "Updated_At" low high) plainOptions = .ok ⟨y, .bool, false⟩ ∧
      y = .between updated.value.sql (.literal (.datetime (.startOfDay ⟨2020, 1, 1, by decide⟩)))
        (.literal (.datetime (.endOfDay ⟨2020, 1, 31, by decide⟩))) ∧
      ¬ KeepAlike "updated_at" .text y x := by
  intro column w updated low high
  have hcolumn : w.schema.find? "Updated_At" = some column := by decide
  have hvalue : w.field (columnText "Updated_At") withoutAggregation = .ok updated.value := field_column hcolumn rfl
  have hlow : suits column.datatype w.now low = true := by decide
  have hhigh : suits column.datatype w.now high = true := by decide
  obtain ⟨l, h, y, hfilter, hfield, hsql, hrows⟩ :=
    (buildFilter_agrees plainOptions hcolumn rfl hvalue rfl rfl).2 low high hlow hhigh
  have hbuilt : buildFilter updated w.now (some "between") (.arr [low, high]) =
      .ok (.between updated.value.sql (.literal (.datetime (.startOfDay ⟨2020, 1, 1, by decide⟩)))
        (.literal (.datetime (.startOfDay ⟨2020, 1, 31, by decide⟩)))) := buildFilter_range hlow hhigh rfl rfl
  cases hbuilt.symm.trans hfilter
  have hover : overruns (.datetime (.startOfDay ⟨2020, 1, 1, by decide⟩))
      (.datetime (.startOfDay ⟨2020, 1, 31, by decide⟩)) = true := by decide
  have hsql := hsql (by simp [low, leastWord]) (by simp [high, leastWord])
  refine ⟨hcolumn, rfl, hvalue, hlow, hhigh, rfl, _, y, hfilter, hfield, hsql, fun halike => ?_⟩
  cases (hrows.mp halike).symm.trans hover

end ShelfQuery.Recipe
