import ShelfQuery.Proofs.Calendar.DateOnly
import ShelfQuery.Proofs.Compiler.Exact
import ShelfQuery.Proofs.Engine.Days

set_option autoImplicit false

namespace ShelfQuery.Expression

open ShelfQuery.Sql ShelfQuery.Schema ShelfQuery.Calendar ShelfQuery.Engine

/-- The ways to ask for a range of days: by name, counted from the day of the clock, and between two dates. -/
inductive DaySpan (c : Context) (arg : Tree) : Tree → Date → Date → Prop where
  | named {pos offset units offsetPos first last} : dateRange offset units c.now.date = .ok (first, last) →
      DaySpan c arg (.isRange pos arg offset units offsetPos) first last
  | between {pos lowPos highPos low high first last} : dateOnly? low = some first → dateOnly? high = some last →
      DaySpan c arg (.between pos arg (.constant lowPos (.text low)) (.constant highPos (.text high))) first last

variable {c : Context} {name : String} {column : Column} {tree : Tree} {first last : Date}

theorem DaySpan.compiles {scope : Scope} {arg : Tree} {x : Sql} (h : DaySpan c arg tree first last)
    (harg : Compiles c scope arg ⟨x, .datetime⟩) :
    Compiles c scope tree
      ⟨.between x (.literal (.datetime (.startOfDay first))) (.literal (.datetime (.endOfDay last))), .bool⟩ := by
  have hmoment {text : String} {d : Date} (h : dateOnly? text = some d) :
      moment? c (.literal (.text text)) = some (.startOfDay d) := by
    simp [moment?, readMoment_dateOnly h, Except.toOption]
  have hconstant (pos : Nat) (text : String) :
      Compiles c scope (.constant pos (.text text)) ⟨.literal (.text text), .str⟩ := .constant rfl
  cases h with
  | named hrange => exact .isDatetimeRange harg rfl hrange
  | between hlow hhigh =>
    exact .between harg (hconstant _ _) (hconstant _ _) (.moment rfl (hmoment hlow)) (.moment rfl (hmoment hhigh)) rfl rfl

def momentColumn (c : Context) (column : Column) : Sql :=
  match converterUnit? c.options.datetimes with
  | none => .column c.schema.name column.name
  | some unit => .dateTrunc unit (.column c.schema.name column.name) true

theorem compiles_momentColumn (hcolumn : c.schema.find? name = some column) (htype : column.datatype = .datetime)
    (scope : Scope) (place : Nat) : Compiles c scope (.column place name) ⟨momentColumn c column, .datetime⟩ := by
  have husable : column.datatype.isUsable = true := by rw [htype]; rfl
  have hvalue : ValueType.ofDataType column.datatype = .datetime := by rw [htype]; rfl
  have htruncation : c.truncation? (.ofDataType column.datatype) = converterUnit? c.options.datetimes := by
    rw [hvalue]
    rfl
  unfold momentColumn
  cases hunit : converterUnit? c.options.datetimes with
  | none =>
    have hplain : Compiles c scope (.column place name) _ := .column hcolumn husable (htruncation.trans hunit)
    rwa [hvalue] at hplain
  | some unit =>
    have hcut : Compiles c scope (.column place name) _ := .columnTrunc hcolumn husable (htruncation.trans hunit)
    rwa [hvalue] at hcut

/-- Ranges of days on a column of moments compile whenever the days are there, and a cell is in the range exactly when
its day is. Where the options cut the moments of a column to the first day of a unit, the day that is left is in the
range exactly when it is one of the days after the first. -/
theorem range_covers_whole_days (hcolumn : c.schema.find? name = some column) (htype : column.datatype = .datetime)
    (tables : List StoredTable) {f : Focus} {cell : Stamp} (hcell : f.column column.name = .text cell.text)
    (hyear : cell.date.FourDigits) (hsecond : cell.second ≤ 59) (place : Nat) :
    (∀ pos offset units offsetPos compiled,
      (Tree.isRange pos (.column place name) offset units offsetPos).compile c = .ok compiled →
      ∃ first last, dateRange offset units c.now.date = .ok (first, last)) ∧
    ∀ tree first last, DaySpan c (.column place name) tree first last → first.FourDigits → last.FourDigits →
      ∃ compiled, tree.compile c = .ok compiled ∧
        (converterUnit? c.options.datetimes = none →
          eval tables f compiled.sql = ofBool (decide (Within (first, last) cell.date))) ∧
        ∀ unit, converterUnit? c.options.datetimes = some unit →
          ∃ day, firstDay? unit cell.date = some day ∧
            eval tables f compiled.sql = ofBool (first.before day && !last.before day) := by
  have hargument := compiles_momentColumn hcolumn htype {} place
  constructor
  · intro pos offset units offsetPos compiled hcompiled
    obtain ⟨hcompiles, -⟩ := compiles_of_compile hcompiled
    generalize (⟨compiled.sql, compiled.type⟩ : Typed) = t at hcompiles
    cases hcompiles with
    | isDateRange harg hdate _ => exact nomatch (congrArg Typed.type (harg.unique hargument)).symm.trans hdate
    | isDatetimeRange _ _ hrange => exact ⟨_, _, hrange⟩
  · intro tree first last hspan hfirst hlast
    obtain ⟨compiled, hcompiled, hsql, -⟩ := compile_of_compiles (hspan.compiles hargument)
    refine ⟨compiled, hcompiled, ?_, ?_⟩
    · intro hplain
      have hx : eval tables f (momentColumn c column) = .text cell.text := by
        rw [momentColumn, hplain]
        exact hcell
      rw [hsql]
      exact eval_days_of_moment hx hyear hsecond hfirst hlast
    · intro unit hunit
      obtain ⟨day, hday, hlow⟩ := exists_firstDay? unit hyear
      rw [hsql, momentColumn, hunit]
      exact ⟨day, hday, eval_days_of_date (eval_dateTrunc hcell hyear hday) hlow hfirst hlast⟩

/-- The last moment of a leap day is in its month, the midnight after it is not. -/
theorem range_covers_whole_days_leap :
    let c : Context := ⟨⟨"visits", [⟨"seen", .datetime⟩]⟩, .sqlite, {}, .endOfDay ⟨2020, 2, 14, by decide⟩⟩
    let last : Stamp := ⟨⟨2020, 2, 29, by decide⟩, 23, 59, 59, some 999999, by decide, by decide, by decide, by simp⟩
    let next : Stamp := ⟨⟨2020, 3, 1, by decide⟩, 0, 0, 0, none, by decide, by decide, by decide, by simp⟩
    let focus (cell : Stamp) : Focus := ⟨⟨"visits", [⟨"seen", "datetime"⟩], []⟩, [], some [.text cell.text]⟩
    let month : Tree := .isRange 1 (.column 1 "seen") "this" "month" 10
    let days : Tree := .between 1 (.column 1 "seen") (.constant 15 (.text "2/1/2020")) (.constant 30 (.text "2020-02-29"))
    (last.text = "2020-02-29 23:59:59.999999" ∧ next.text = "2020-03-01 00:00:00") ∧
    (∃ compiled, month.compile c = .ok compiled ∧ eval [] (focus last) compiled.sql = .int 1) ∧
    (∃ compiled, month.compile c = .ok compiled ∧ eval [] (focus next) compiled.sql = .int 0) ∧
    (∃ compiled, days.compile c = .ok compiled ∧ eval [] (focus last) compiled.sql = .int 1) ∧
    ∃ compiled, days.compile c = .ok compiled ∧ eval [] (focus next) compiled.sql = .int 0 := by
  intro c last next focus month days
  let first : Date := ⟨2020, 2, 1, by decide⟩
  have hmonth : DaySpan c (.column 1 "seen") month first last.date := .named (by decide +kernel)
  have hdays : DaySpan c (.column 1 "seen") days first last.date := .between (by decide +kernel) (by decide +kernel)
  have hcolumn : c.schema.find? "seen" = some ⟨"seen", .datetime⟩ := by decide +kernel
  have hlast (tree : Tree) (h : DaySpan c (.column 1 "seen") tree first last.date) :
      ∃ compiled, tree.compile c = .ok compiled ∧ eval [] (focus last) compiled.sql = .int 1 := by
    have hcell : (focus last).column "seen" = .text last.text := rfl
    obtain ⟨-, hspans⟩ := range_covers_whole_days hcolumn rfl [] hcell (by decide) (by decide) 1
    obtain ⟨compiled, hcompiled, heval, -⟩ := hspans tree first last.date h (by decide) (by decide)
    exact ⟨compiled, hcompiled, heval rfl⟩
  have hnext (tree : Tree) (h : DaySpan c (.column 1 "seen") tree first last.date) :
      ∃ compiled, tree.compile c = .ok compiled ∧ eval [] (focus next) compiled.sql = .int 0 := by
    have hcell : (focus next).column "seen" = .text next.text := rfl
    obtain ⟨-, hspans⟩ := range_covers_whole_days hcolumn rfl [] hcell (by decide) (by decide) 1
    obtain ⟨compiled, hcompiled, heval, -⟩ := hspans tree first last.date h (by decide) (by decide)
    exact ⟨compiled, hcompiled, heval rfl⟩
  exact ⟨⟨by decide +kernel, by decide +kernel⟩, hlast month hmonth, hnext month hmonth, hlast days hdays, hnext days hdays⟩

/-- Where moments are cut to their days, no moment of the day of the clock is in that day. -/
theorem range_covers_whole_days_cut :
    let c : Context :=
      ⟨⟨"visits", [⟨"seen", .datetime⟩]⟩, .sqlite, { datetimes := some "day_conv" }, .endOfDay ⟨2020, 2, 14, by decide⟩⟩
    let noon : Stamp := ⟨c.now.date, 12, 0, 0, none, by decide, by decide, by decide, by simp⟩
    let focus : Focus := ⟨⟨"visits", [⟨"seen", "datetime"⟩], []⟩, [], some [.text noon.text]⟩
    dateRange "this" "day" c.now.date = .ok (noon.date, noon.date) ∧ Within (noon.date, noon.date) noon.date ∧
      ∃ compiled, (Tree.isRange 1 (.column 1 "seen") "this" "day" 10).compile c = .ok compiled ∧
        eval [] focus compiled.sql = .int 0 := by
  intro c noon focus
  have hrange : dateRange "this" "day" c.now.date = .ok (noon.date, noon.date) := by decide +kernel
  have hcolumn : c.schema.find? "seen" = some ⟨"seen", .datetime⟩ := by decide +kernel
  have hspan : DaySpan c (.column 1 "seen") (.isRange 1 (.column 1 "seen") "this" "day" 10) noon.date noon.date :=
    .named hrange
  obtain ⟨compiled, hcompiled, hsql, -⟩ := compile_of_compiles (hspan.compiles (compiles_momentColumn hcolumn rfl {} 1))
  refine ⟨hrange, by decide, compiled, hcompiled, ?_⟩
  have hcell : focus.column "seen" = .text noon.text := rfl
  have hday : firstDay? .day noon.date = some noon.date := rfl
  have hyear : noon.date.FourDigits := by decide
  rw [hsql]
  exact eval_days_of_date (eval_dateTrunc hcell hyear hday) hyear.2 hyear hyear

end ShelfQuery.Expression
