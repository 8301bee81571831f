import ShelfQuery.Proofs.Compiler.ColumnsRead
import ShelfQuery.Proofs.Recipe.Operands

set_option autoImplicit false

namespace ShelfQuery.Recipe

open ShelfQuery.Expression ShelfQuery.Shelf ShelfQuery.Sql ShelfQuery.Data ShelfQuery.Schema ShelfQuery.Calendar
open ShelfQuery.Number

def literalType : Literal → ValueType
  | .null => .null
  | .bool _ => .bool
  | .int _ => .num
  | .float _ => .num
  | .text _ => .str
  | .date _ => .date
  | .datetime _ => .datetime

theorem literalType_constant (value : Constant) : literalType value.literal = value.type := by
  cases value <;> rfl

theorem literalType_negate {l : Literal} {n : Float} (h : l.number? = some n) : literalType (negateLiteral l) = .num := by
  cases l with
  | int n =>
    rw [negateLiteral, wordOr]
    split <;> rfl
  | float x => rfl
  | _ => cases h

section

variable {c : Context} {scope : Scope} {tree : Tree} {l : Literal}

theorem Denotes.compiles (h : Denotes tree l) : Compiles c scope tree ⟨.literal l, literalType l⟩ := by
  induction h with
  | @constant pos value hfinite =>
    rw [literalType_constant]
    exact .constant hfinite
  | neg _ hnumber ih =>
    rw [literalType_negate hnumber]
    exact .negLiteral ih rfl hnumber

theorem Denotes.retains (h : Denotes tree l) : Retains (visit c scope tree) := by
  induction h with
  | @constant pos value =>
    rw [visit]
    exact .of_steps (visitConstant_steps value trivial)
  | @neg pos arg _ _ _ _ ih =>
    rw [visit]
    exact ih.bind fun t => .of_steps (checkNeg_steps trivial)

theorem Denotes.aggregates (h : Denotes tree l) : tree.aggregates = false := by
  induction h with
  | constant => rfl
  | neg _ _ ih => exact ih

end

section

variable {w : Workbench} {options : Options} {text : String} {tree : Tree} {t : Typed}

theorem field_of_compiles (hparse : Tree.parse text = .ok tree) (hcompiles : Compiles (w.context options) {} tree t)
    (hreads : ReadsColumn (visit (w.context options) {} tree)) (haggregates : tree.aggregates = false) :
    w.field text options = .ok (Field.aggregated options ⟨t.sql, t.type.dataType?.getD .str, false⟩) := by
  obtain ⟨compiled, hcompile, hsql, htype⟩ := compile_of_compiles hcompiles
  have hflag : compiled.aggregated = false := (compiles_of_compile hcompile).2.trans haggregates
  have hcolumns := readsColumns_of_compile hcompile hreads
  rw [Workbench.field, readField, hparse]
  simp only [hcompile]
  rw [if_pos hcolumns, hsql, htype, hflag]
  rfl

end

/-- Whether a value is of the kind of a column. Null is of every kind, and a text on a date names a moment. -/
def suits (datatype : DataType) (now : DateTime) (v : Json) : Bool :=
  isScalar v &&
    match v with
    | .bool _ => datatype == .bool
    | .int _ => datatype == .num
    | .float _ => datatype == .num
    | .str s => datatype == .str || datatype.isTemporal && (readMoment s now).isOk
    | _ => true

def leastWord : Json := .int (-(2 ^ 63))

/-- The literals of a value in a filter and in an expression have one value, and are the same unless the value
is the least integer of a word. -/
def Matches (v : Json) (l l' : Literal) : Prop := (v ≠ leastWord → l' = l) ∧ l'.value = l.value

theorem Matches.refl (v : Json) (l : Literal) : Matches v l l := ⟨fun _ => rfl, rfl⟩

/-- A moment exactly at midnight moves to the end of its day. -/
def dayEnd : Literal → Literal
  | .datetime m => .datetime m.wholeDayEnd
  | l => l

theorem literalOf_text {datatype : DataType} {now : DateTime} {s : String} {l : Literal}
    (h : literalOf datatype now (.str s) = .ok l) :
    (datatype.isTemporal = true ∧ ∃ m : DateTime, l = if datatype = .date then .date m.date else .datetime m) ∨
      datatype.isTemporal = false ∧ l = .text s := by
  rw [literalOf] at h
  by_cases htemporal : datatype.isTemporal = true
  · rw [if_pos htemporal] at h
    cases hread : readMoment s now with
    | error e =>
      rw [hread] at h
      cases h
    | ok m =>
      rw [hread] at h
      cases h
      exact .inl ⟨htemporal, m, rfl⟩
  · rw [if_neg htemporal] at h
    cases h
    exact .inr ⟨Bool.eq_false_iff.mpr htemporal, rfl⟩

theorem datetime_of_literalOf {datatype : DataType} {now : DateTime} {v : Json} {n : DateTime}
    (h : literalOf datatype now v = .ok (.datetime n)) : datatype = .datetime := by
  cases v with
  | int k =>
    rw [literalOf] at h
    split at h <;> cases h
  | str s =>
    rcases literalOf_text h with ⟨htemporal, m, hm⟩ | ⟨-, htext⟩
    · cases datatype with
      | datetime => rfl
      | date => cases hm
      | _ => cases htemporal
    · cases htext
  | _ => cases h

theorem dayEnd_of_literalOf {datatype : DataType} {now : DateTime} {v : Json} {l : Literal}
    (h : literalOf datatype now v = .ok l) (hdatatype : datatype ≠ .datetime) : dayEnd l = l := by
  cases l with
  | datetime n => exact absurd (datetime_of_literalOf h) hdatatype
  | _ => rfl

theorem literalOf_datetime {now : DateTime} {v : Json} {l : Literal} (hv : suits .datetime now v = true)
    (h : literalOf .datetime now v = .ok l) : l = .null ∨ ∃ m, l = .datetime m := by
  obtain ⟨hscalar, hkind⟩ := Bool.and_eq_true_iff.mp hv
  cases v with
  | null =>
    cases h
    exact .inl rfl
  | str s =>
    rcases literalOf_text h with ⟨-, m, hm⟩ | ⟨htemporal, -⟩
    · exact .inr ⟨m, hm⟩
    · cases htemporal
  | arr | obj => cases hscalar
  | _ => cases hkind

theorem wholeDayEnd_date (m : DateTime) : m.wholeDayEnd.date = m.date := by
  unfold DateTime.wholeDayEnd
  split <;> rfl

theorem momentLiteral_eq {datatype : DataType} (h : datatype.isTemporal = true) (wholeDay : Bool) (m : DateTime) :
    momentLiteral (.ofDataType datatype) wholeDay m =
      ⟨.literal (if wholeDay then dayEnd (if datatype = .date then .date m.date else .datetime m)
        else if datatype = .date then .date m.date else .datetime m), .ofDataType datatype⟩ := by
  cases datatype with
  | date =>
    cases wholeDay with
    | false => rfl
    | true => exact congrArg (fun d => Typed.mk (.literal (.date d)) .date) (wholeDayEnd_date m)
  | datetime => cases wholeDay <;> rfl
  | _ => cases h

theorem matches_int {n : Int} (hlow : -(2 ^ 63) ≤ n) :
    Matches (.int n) (if fitsWord n then .int n else .float (Binary64.ofInt n)) (operandLiteral (.int n)) := by
  rw [operandLiteral]
  by_cases hleast : n = -(2 ^ 63)
  · subst hleast
    refine ⟨fun hne => absurd rfl hne, ?_⟩
    have hvalue : Binary64.value (Binary64.ofInt (-(2 ^ 63))) = -(2 ^ 63) := by decide +kernel
    rw [if_neg (by decide), if_pos (by decide)]
    exact congrArg Value.num (hvalue.trans (by norm_num))
  · have hiff : n.natAbs < 2 ^ 63 ↔ fitsWord n = true := by
      rw [fitsWord_iff]
      omega
    simp only [hiff]
    exact .refl _ _

/-- The value has a literal for the column, and the operand that is written for it is brought to one that
matches. For the upper bound of a range this is the end of the day of the literal. -/
def Brings (c : Context) (datatype : DataType) (wholeDay : Bool) (v : Json) : Prop :=
  ∃ l l' type, literalOf datatype c.now v = .ok l ∧ Matches v (if wholeDay then dayEnd l else l) l' ∧
    Brought c (.ofDataType datatype) wholeDay ⟨.literal (operandLiteral v), literalType (operandLiteral v)⟩
      ⟨.literal l', type⟩ ∧
    (ValueType.ofDataType datatype).compatible type = true

section

variable {c : Context} {datatype : DataType} {wholeDay : Bool}

theorem brings_same {v : Json} {l : Literal} (hl : literalOf datatype c.now v = .ok l) (hend : dayEnd l = l)
    (hmatches : Matches v l (operandLiteral v))
    (hnames : (ValueType.ofDataType datatype).isTemporal = true → namesMoment (.literal (operandLiteral v)) = false)
    (htype : (ValueType.ofDataType datatype).compatible (literalType (operandLiteral v)) = true) :
    Brings c datatype wholeDay v := by
  refine ⟨l, operandLiteral v, _, hl, ?_, .same hnames, htype⟩
  rwa [hend, ite_self]

theorem brings_moment {s : String} {m : DateTime} (htemporal : datatype.isTemporal = true)
    (hmoment : readMoment s c.now = .ok m) : Brings c datatype wholeDay (.str s) := by
  have htarget : (ValueType.ofDataType datatype).isTemporal = true := by
    cases datatype with
    | date | datetime => rfl
    | _ => cases htemporal
  have hnamed : moment? c (.literal (.text s)) = some m := by
    change (readMoment s c.now).toOption = some m
    rw [hmoment]
    rfl
  refine ⟨if datatype = .date then .date m.date else .datetime m, _, .ofDataType datatype, ?_, .refl _ _, ?_, ?_⟩
  · rw [literalOf, if_pos htemporal, hmoment]
  · rw [← momentLiteral_eq htemporal]
    exact .moment htarget hnamed
  · simp [ValueType.compatible]

theorem brings_of_suits {v : Json} (h : suits datatype c.now v = true) : Brings c datatype wholeDay v := by
  obtain ⟨hscalar, hkind⟩ := Bool.and_eq_true_iff.mp h
  cases v with
  | null =>
    have htype : (ValueType.ofDataType datatype).compatible .null = true := by simp [ValueType.compatible]
    exact brings_same rfl rfl (.refl _ _) (fun _ => rfl) htype
  | bool b =>
    cases beq_iff_eq.mp hkind
    exact brings_same rfl rfl (.refl _ _) (fun _ => rfl) rfl
  | int n =>
    cases beq_iff_eq.mp hkind
    have hrange : -(2 ^ 63) ≤ n ∧ n < 2 ^ 64 := by simpa [isScalar] using hscalar
    apply brings_same rfl _ (matches_int hrange.1)
    · intro htemporal
      cases htemporal
    · rw [operandLiteral]
      split <;> rfl
    · split <;> rfl
  | float x =>
    cases beq_iff_eq.mp hkind
    exact brings_same rfl rfl (.refl _ _) (fun _ => rfl) rfl
  | str s =>
    rcases Bool.or_eq_true_iff.mp hkind with hstr | hmoment
    · cases beq_iff_eq.mp hstr
      apply brings_same rfl rfl (.refl _ _)
      · intro htemporal
        cases htemporal
      · rfl
    · obtain ⟨htemporal, hok⟩ := Bool.and_eq_true_iff.mp hmoment
      cases hread : readMoment s c.now with
      | error e =>
        rw [hread] at hok
        cases hok
      | ok m => exact brings_moment htemporal hread
  | arr vs => cases hscalar
  | obj ms => cases hscalar

end

theorem Brought.paired {c : Context} {l r r' : Typed} (h : Brought c l.type false r r')
    (hl : namesMoment l.sql = false) : Paired c l r l r' := by
  cases h with
  | moment htemporal hm => exact .right htemporal hm
  | same hnames =>
    apply Paired.same
    · rintro ⟨htemporal, hr⟩
      rw [hnames htemporal] at hr
      cases hr
    · rintro ⟨-, hl'⟩
      rw [hl] at hl'
      cases hl'

theorem compareSql_column (op : CompareOp) (table name : String) (l : Literal) :
    compareSql op (.column table name) (.literal l) = compareWith op (.column table name) l := by
  cases op <;> cases l <;> rfl

section

variable {w : Workbench} {options : Options} {name : String} {column : Column}
  (hcolumn : w.schema.find? name = some column) (husable : column.datatype.isUsable = true)

include hcolumn husable

theorem field_column :
    w.field (columnText name) withoutAggregation = .ok ⟨.column w.schema.name column.name, column.datatype, false⟩ := by
  obtain ⟨pos, hparse⟩ := parse_column hcolumn
  have htruncation : (w.context withoutAggregation).truncation? (.ofDataType column.datatype) = none := by
    cases column.datatype <;> rfl
  have hreads : ReadsColumn (visit (w.context withoutAggregation) {} (.column pos name)) := by
    rw [visit]
    exact visitColumn_reads hcolumn husable pos
  rw [field_of_compiles hparse (.column hcolumn husable htruncation) hreads rfl]
  cases hdatatype : column.datatype with
  | unusable =>
    rw [hdatatype] at husable
    cases husable
  | _ => rfl

variable (hdates : options.dates = none) (hdatetimes : options.datetimes = none)

include hdates hdatetimes

theorem compiles_column (scope : Scope) (pos : Nat) :
    Compiles (w.context options) scope (.column pos name)
      ⟨.column w.schema.name column.name, .ofDataType column.datatype⟩ := by
  refine .column hcolumn husable ?_
  unfold Context.truncation?
  cases column.datatype <;> simp [ValueType.ofDataType, Workbench.context, hdates, hdatetimes, converterUnit?]

theorem field_comparison (op : Comparison) {v : Json} (h : suits column.datatype w.now v = true) :
    ∃ l l', literalOf column.datatype w.now v = .ok l ∧ Matches v l l' ∧
      w.field (comparisonText name op v) options =
        .ok ⟨compareWith op.op (.column w.schema.name column.name) l', .bool, false⟩ := by
  have hwrites := writes_operandText (Bool.and_eq_true_iff.mp h).1
  obtain ⟨pos, place, right, hparse, hdenotes⟩ := parse_comparison hcolumn op hwrites
  obtain ⟨l, l', type, hl, hmatches, hbrought, htype⟩ := @brings_of_suits (w.context options) _ false _ h
  have hleft := compiles_column hcolumn husable hdates hdatetimes {} place
  have hcompiles : Compiles (w.context options) {} (.compare pos op (.column place name) right)
      ⟨compareSql op.op (.column w.schema.name column.name) (.literal l'), .bool⟩ :=
    .compare hleft hdenotes.compiles (Brought.paired hbrought rfl) htype
  have hreads : ReadsColumn (visit (w.context options) {} (.compare pos op (.column place name) right)) := by
    rw [visit, visit]
    apply (visitColumn_reads hcolumn husable place).bind
    intro t
    exact hdenotes.retains.bind fun r => .of_steps (checkCompare_steps op t r trivial)
  have hfield := field_of_compiles hparse hcompiles hreads hdenotes.aggregates
  refine ⟨l, l', hl, hmatches, hfield.trans ?_⟩
  rw [compareSql_column]
  simp [Field.aggregated, ValueType.dataType?]

theorem field_range {low high : Json} (hlow : suits column.datatype w.now low = true)
    (hhigh : suits column.datatype w.now high = true) :
    ∃ l l' h h', literalOf column.datatype w.now low = .ok l ∧ literalOf column.datatype w.now high = .ok h ∧
      Matches low l l' ∧ Matches high (dayEnd h) h' ∧
      w.field (rangeText name low high) options =
        .ok ⟨.between (.column w.schema.name column.name) (.literal l') (.literal h'), .bool, false⟩ := by
  have hwrites := writes_operandText (Bool.and_eq_true_iff.mp hlow).1
  have hwrites' := writes_operandText (Bool.and_eq_true_iff.mp hhigh).1
  obtain ⟨pos, place, left, right, hparse, hdenotes, hdenotes'⟩ := parse_range hcolumn hwrites hwrites'
  obtain ⟨l, l', type, hl, hmatches, hbrought, htype⟩ := @brings_of_suits (w.context options) _ false _ hlow
  obtain ⟨h, h', type', hh, hmatches', hbrought', htype'⟩ :=
    @brings_of_suits (w.context options) _ (ValueType.ofDataType column.datatype == .datetime) _ hhigh
  have hleft := compiles_column hcolumn husable hdates hdatetimes {} place
  have hcompiles : Compiles (w.context options) {} (.between pos (.column place name) left right)
      ⟨.between (.column w.schema.name column.name) (.literal l') (.literal h'), .bool⟩ :=
    .between hleft hdenotes.compiles hdenotes'.compiles hbrought hbrought' htype htype'
  have hreads : ReadsColumn (visit (w.context options) {} (.between pos (.column place name) left right)) := by
    rw [visit, visit]
    apply (visitColumn_reads hcolumn husable place).bind
    intro t
    apply hdenotes.retains.bind
    intro low
    exact hdenotes'.retains.bind fun high => .of_steps (checkBetween_steps low high trivial)
  have haggregates : (false || left.aggregates || right.aggregates) = false := by
    rw [hdenotes.aggregates, hdenotes'.aggregates]
    rfl
  have hfield := field_of_compiles hparse hcompiles hreads haggregates
  refine ⟨l, l', h, h', hl, hh, hmatches, ?_, hfield.trans (by simp [Field.aggregated, ValueType.dataType?])⟩
  -- a whole day is asked for on a datetime only, and elsewhere no literal has a time to move
  by_cases hdatetime : column.datatype = .datetime
  · rwa [hdatetime] at hmatches'
  · have hkept : (ValueType.ofDataType column.datatype == .datetime) = false := by
      cases hdatatype : column.datatype with
      | datetime => exact absurd hdatatype hdatetime
      | _ => rfl
    rw [hkept] at hmatches'
    rwa [dayEnd_of_literalOf hh hdatetime]

end

end ShelfQuery.Recipe
