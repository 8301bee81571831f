import ShelfQuery.Proofs.Compiler.Compiles
import ShelfQuery.Proofs.Compiler.Folding
import ShelfQuery.Proofs.Schema.Names
import ShelfQuery.Proofs.Sql.WellTyped

set_option autoImplicit false

namespace ShelfQuery.Expression

open ShelfQuery.Sql ShelfQuery.Schema ShelfQuery.Calendar

variable {type l r : ValueType} {t : Typed} {visited : List Typed} {op : Arith} {x : Sql}

def ValueType.valueClass : ValueType → ValueClass
  | .bool => .bool
  | .num => .num
  | .str => .text
  | .date => .text
  | .datetime => .text
  | .null => .null
  | _ => .any

def Typed.WellTyped (schema : Table) (t : Typed) : Prop := Sql.WellTyped schema t.type.valueClass t.sql

variable {c : Context} {schema : Table}

theorem valueClass_ofDataType {d : DataType} (h : d.isUsable = true) :
    (ValueType.ofDataType d).valueClass = .ofDataType d := by
  cases d <;> first | rfl | exact nomatch h

theorem valueClass_of_temporal (h : type.isTemporal = true) : type.valueClass = .text := by
  cases type <;> first | rfl | exact nomatch h

theorem valueClass_of_condition (h : type.isCondition) : type.valueClass.Le .bool := by
  rcases h with rfl | rfl
  · exact .refl
  · exact .null

/-- Of two types that can be mixed, the second has the class of the first, or one of them is null. -/
theorem valueClass_of_compatible {a b : ValueType} (h : a.compatible b = true) (ha : a ≠ .null) :
    b.valueClass.Le a.valueClass := by
  simp only [ValueType.compatible, Bool.or_eq_true, beq_iff_eq, Bool.and_eq_true] at h
  rcases h with ((rfl | h) | rfl) | ⟨ha', hb'⟩
  · exact .refl
  · exact absurd h ha
  · exact .null
  · rw [valueClass_of_temporal ha', valueClass_of_temporal hb']
    exact .refl

theorem truncation?_temporal {unit : TruncUnit} (h : c.truncation? type = some unit) : type.isTemporal = true := by
  cases type <;> first | rfl | simp [Context.truncation?, converterUnit?] at h

theorem commonType_null {ts : List Typed} (h : commonType ts = .null) (ht : t ∈ ts) : t.type = .null := by
  cases hfind : decidingType ts with
  | none => simpa using List.find?_eq_none.mp hfind t.type (List.mem_map_of_mem ht)
  | some type =>
    have hnull := List.find?_some hfind
    rw [commonType, hfind] at h
    simp_all

theorem momentLiteral_wellTyped {target : ValueType} (htarget : target.isTemporal = true) (wholeDay : Bool)
    (m : DateTime) : (momentLiteral target wholeDay m).WellTyped schema := by
  have hliteral (l : Literal) (hl : l.valueClass = .text) : Sql.WellTyped schema target.valueClass (.literal l) := by
    rw [valueClass_of_temporal htarget, ← hl]
    exact .literal l
  exact hliteral _ (by split <;> rfl)

theorem Brought.wellTyped {target : ValueType} {wholeDay : Bool} {t t' : Typed}
    (h : Brought c target wholeDay t t') (ht : t.WellTyped schema) : t'.WellTyped schema := by
  cases h with
  | moment htarget _ => exact momentLiteral_wellTyped htarget _ _
  | same => exact ht

theorem Paired.wellTyped {l r l' r' : Typed} (h : Paired c l r l' r') (hl : l.WellTyped schema)
    (hr : r.WellTyped schema) : l'.WellTyped schema ∧ r'.WellTyped schema := by
  cases h with
  | right htarget _ => exact ⟨hl, momentLiteral_wellTyped htarget _ _⟩
  | left _ htarget _ => exact ⟨momentLiteral_wellTyped htarget _ _, hr⟩
  | same => exact ⟨hl, hr⟩

theorem Fits.wellTyped (h : Fits type t) (ht : t.WellTyped schema) : Sql.WellTyped schema type.valueClass t.sql := by
  rcases h with hnull | ⟨htype, hcompatible⟩
  · rw [Typed.WellTyped, hnull] at ht
    exact ht.of_null
  · exact .weaken (valueClass_of_compatible hcompatible htype) ht

theorem Brought.wellTyped_fits {t t' : Typed} (h : Brought c type false t t')
    (hfits : Fits type t) (ht : t.WellTyped schema) : Sql.WellTyped schema type.valueClass t'.sql := by
  cases h with
  | moment htarget _ => exact momentLiteral_wellTyped htarget _ _
  | same => exact hfits.wellTyped ht

theorem Branched.wellTyped {whens : List (Sql × Sql)}
    {otherwise : Option Sql} (h : Branched c type visited whens otherwise)
    (hvisited : ∀ t ∈ visited, t.WellTyped schema) :
    (∀ w ∈ whens, Sql.WellTyped schema .bool w.1 ∧ Sql.WellTyped schema type.valueClass w.2) ∧
      ∀ x, otherwise = some x → Sql.WellTyped schema type.valueClass x := by
  induction h with
  | done => simp
  | otherwise hfits _ hbrought =>
    refine ⟨by simp, fun x hx => ?_⟩
    cases hx
    exact hbrought.wellTyped_fits hfits (hvisited _ (by simp))
  | otherwiseNull => simp
  | @when condition v v' rest whens otherwise hbool hfits hbrought _ ih =>
    obtain ⟨hwhens, helse⟩ := ih fun t ht => hvisited t (by simp [ht])
    refine ⟨fun w hw => ?_, helse⟩
    rcases List.mem_cons.mp hw with rfl | hw
    · have hcondition := hvisited condition (by simp)
      rw [Typed.WellTyped, hbool] at hcondition
      exact ⟨hcondition, hbrought.wellTyped_fits hfits (hvisited v (by simp))⟩
    · exact hwhens w hw

theorem Branched.whens_ne_nil {whens : List (Sql × Sql)}
    {otherwise : Option Sql} (h : Branched c type visited whens otherwise) (hlen : 2 ≤ visited.length) :
    whens ≠ [] := by
  cases h with
  | when => simp
  | _ => simp at hlen

inductive Operands : Arith → ValueType → ValueType → ValueType → Prop where
  | numbers {op : Arith} {l r : ValueType} : l.valueClass.Le .num → r.valueClass.Le .num → Operands op l r .num
  | texts {l r : ValueType} : l.valueClass.Le .text → r.valueClass.Le .text → Operands .add l r .str
  | nulls : Operands .add .null .null .null

theorem operands_of_arithType? (h : arithType? op l r = some type) : Operands op l r type := by
  unfold arithType? at h
  split at h
  case h_1 | h_3 | h_6 | h_8 | h_9 | h_10 =>
    cases h
    exact .numbers (by constructor) (by constructor)
  case h_2 | h_4 | h_7 =>
    cases h
    exact .texts (by constructor) (by constructor)
  case h_5 =>
    cases h
    exact .nulls
  case h_11 => exact nomatch h

theorem Operands.not_temporal (h : Operands op l r type) : type.isTemporal = false := by
  cases h <;> rfl

theorem foldNumbers_class (op : Arith) (a b : Literal) : (foldNumbers op a b).valueClass.Le .num := by
  unfold foldNumbers
  split
  · split
    · split
      · unfold wordOr
        split <;> exact .refl
      · exact .refl
    · exact .refl
  · exact .null

theorem foldNumbers_of_text {a b : Literal} (ha : a.valueClass.Le .text) : foldNumbers op a b = .null := by
  have hnumber : a.number? = none := by cases a <;> first | rfl | exact nomatch ha
  simp [foldNumbers, hnumber]

theorem Folded.class_le {a b v : Literal} (h : Folded op a b v)
    (htype : Operands op l r type) (ha : a.valueClass.Le l.valueClass) (hb : b.valueClass.Le r.valueClass) :
    v.valueClass.Le type.valueClass := by
  cases htype with
  | numbers hl hr =>
    cases h with
    | null => exact .null
    | text => exact nomatch ha.trans hl
    | one => exact ha.trans hl
    | number => exact foldNumbers_class op a b
  | texts hl hr =>
    cases h with
    | null => exact .null
    | text => exact .refl
    | number =>
      rw [foldNumbers_of_text (ha.trans hl)]
      exact .null
  | nulls =>
    have hnull : a = .null := by cases a <;> first | rfl | exact nomatch ha
    cases h with
    | null => exact .null
    | text => exact nomatch hnull
    | number hne => exact absurd hnull hne

theorem asFloat_wellTyped (h : Sql.WellTyped schema .num x) : Sql.WellTyped schema .num (asFloat x) := by
  unfold asFloat
  split
  · exact h
  · exact .castFloat h

theorem divide_wellTyped {num den sql : Sql} (hnum : Sql.WellTyped schema .num num)
    (hden : Sql.WellTyped schema .num den) (h : divide num den = .ok sql) : Sql.WellTyped schema .num sql := by
  unfold divide at h
  split at h
  · split at h
    · exact nomatch h
    · split at h
      · cases h
        exact hnum
      · cases h
        exact .number (by simp) (asFloat_wellTyped hnum) hden
  · cases h
    refine .case (by simp) ?_ ?_ ?_
    · simpa using .compare hden.any (Sql.WellTyped.literal (.int 0)).any
    · simpa using Sql.WellTyped.null
    · rintro x ⟨⟩
      exact .number (by simp) (asFloat_wellTyped hnum) (.castFloat hden)

theorem arithSql_wellTyped {l r sql : Sql} {lt rt type : ValueType} (htype : Operands op lt rt type)
    (hl : Sql.WellTyped schema lt.valueClass l) (hr : Sql.WellTyped schema rt.valueClass r)
    (h : arithSql op type l r = .ok sql) : Sql.WellTyped schema type.valueClass sql := by
  cases htype with
  | numbers hlt hrt =>
    have hl' := hl.weaken hlt
    have hr' := hr.weaken hrt
    cases op with
    | add | sub | mul =>
      cases h
      exact .number (by simp) hl' hr'
    | div => exact divide_wellTyped hl' hr' h
  | texts hlt hrt =>
    cases h
    exact .concat (hl.weaken hlt) (hr.weaken hrt)
  | nulls =>
    cases h
    exact .addNull hl hr

theorem comparison_wellTyped {op : CompareOp} {l r : Sql} (hl : Sql.WellTyped schema .any l)
    (hr : Sql.WellTyped schema .any r) : Sql.WellTyped schema .bool (comparison op l r) := by
  unfold comparison
  split
  · exact .isNull hl
  · split
    · split
      · exact .literal (.bool _)
      · exact .compare hl hr
    · exact .compare hl hr

theorem compareSql_wellTyped {op : CompareOp} {l r : Sql} (hl : Sql.WellTyped schema .any l)
    (hr : Sql.WellTyped schema .any r) : Sql.WellTyped schema .bool (compareSql op l r) := by
  rw [compareSql_eq]
  split
  · exact comparison_wellTyped hr hl
  · exact comparison_wellTyped hl hr

theorem wholeItem_wellTyped (h : Sql.WellTyped schema .any x) : Sql.WellTyped schema .any (wholeItem x) := by
  unfold wholeItem
  split
  · split
    · split <;> exact (Sql.WellTyped.literal _).any
    · exact h
  · exact h

theorem widenPattern_wellTyped (h : Sql.WellTyped schema .any x) : Sql.WellTyped schema .any (widenPattern x) := by
  unfold widenPattern
  split
  · split <;> exact (Sql.WellTyped.literal _).any
  · exact h

theorem apply_wellTyped {aggregate : Aggregate} (ht : t.WellTyped schema)
    (hbroken : t.type.isBroken = false) (h : aggregateFaults c aggregate t.type = []) :
    (aggregate.apply t).WellTyped schema := by
  have haccepts : aggregate.accepts t.type = true := by
    simp only [aggregateFaults, List.append_eq_nil_iff] at h
    simpa [hbroken] using h.2
  have hnumber (hn : (t.type == .num || t.type == .null) = true) : Sql.WellTyped schema .num t.sql := by
    simp only [Bool.or_eq_true, beq_iff_eq] at hn
    rcases hn with hn | hn
    · rw [Typed.WellTyped, hn] at ht
      exact ht
    · rw [Typed.WellTyped, hn] at ht
      exact ht.of_null
  cases aggregate with
  | min | max => exact .extremum (by simp) ht
  | sum | avg => exact .sum (by simp [Aggregate.name]) (hnumber haccepts)
  | count => exact .count ht.any
  | countDistinct => exact .countDistinct ht.any
  | median | percentile => exact .percentile (hnumber haccepts)

theorem literal_wellTyped {l : Literal} (h : l.valueClass.Le type.valueClass) :
    (⟨.literal l, type⟩ : Typed).WellTyped schema :=
  .weaken h (.literal l)

theorem constant_class (value : Constant) : value.literal.valueClass = value.type.valueClass := by
  cases value <;> rfl

theorem negateLiteral_class (l : Literal) : (negateLiteral l).valueClass.Le .num := by
  unfold negateLiteral
  split
  · unfold wordOr
    split <;> exact .refl
  · exact .refl
  · exact .null

theorem like_wellTyped {x pattern : Sql} (negated : Bool) (hx : Sql.WellTyped schema .any x)
    (hpattern : Sql.WellTyped schema .any pattern) :
    Sql.WellTyped schema .bool
      (if negated then Sql.negate (.compare .like x pattern) else .compare .like x pattern) := by
  split
  · exact (Sql.WellTyped.compare hx hpattern).negate
  · exact .compare hx hpattern

theorem lower_wellTyped (h : Sql.WellTyped schema .any x) : Sql.WellTyped schema .any (.func "lower" [x]) :=
  (Sql.WellTyped.scalar (by simp) (by simp) (by simpa using h)).any

theorem coalesced_wellTyped {a b : Typed} (ha : a ∈ visited) (hwell : a.WellTyped schema)
    (hbrought : Brought c (commonType visited) false a b) (hcompatible : (commonType visited).compatible b.type = true) :
    Sql.WellTyped schema (commonType visited).valueClass b.sql := by
  by_cases hnull : commonType visited = .null
  · rw [hnull] at hbrought ⊢
    have htype := commonType_null hnull ha
    cases hbrought with
    | moment htemporal => exact nomatch htemporal
    | same =>
      rw [Typed.WellTyped, htype] at hwell
      exact hwell
  · exact .weaken (valueClass_of_compatible hcompatible hnull) (hbrought.wellTyped hwell)

theorem Compiles.wellTyped {scope : Scope} {tree : Tree} (h : Compiles c scope tree t) : t.WellTyped c.schema := by
  induction h with
  | column hfind husable =>
    rw [Typed.WellTyped, valueClass_ofDataType husable]
    exact .column (find?_column hfind).1 (find?_column hfind).2 husable
  | columnTrunc hfind husable hunit =>
    have htext := valueClass_of_temporal (truncation?_temporal hunit)
    rw [Typed.WellTyped, htext]
    refine .dateTrunc ?_
    rw [← htext, valueClass_ofDataType husable]
    exact .column (find?_column hfind).1 (find?_column hfind).2 husable
  | @constant _ _ value => exact literal_wellTyped (constant_class value ▸ .refl)
  | @negLiteral _ _ _ _ l => exact literal_wellTyped (negateLiteral_class l)
  | neg _ hnumber htype ih =>
    rw [Typed.WellTyped, htype] at ih
    exact .neg ih hnumber
  | negNull _ _ _ ih | dateOfDate _ _ _ ih => exact ih
  | not _ htype ih =>
    rw [Typed.WellTyped, htype] at ih
    exact ih.negate
  | arithFold _ _ htype hl hr hfold ihl ihr =>
    rw [Typed.WellTyped, hl] at ihl
    rw [Typed.WellTyped, hr] at ihr
    exact .weaken ((folded_of_foldArith hfold).class_le (operands_of_arithType? htype) ihl.literal_class
      ihr.literal_class) (.literal _)
  | arith _ _ htype _ hsql ihl ihr => exact arithSql_wellTyped (operands_of_arithType? htype) ihl ihr hsql
  | compare _ _ hpair _ ihl ihr =>
    obtain ⟨hl, hr⟩ := hpair.wellTyped ihl ihr
    exact compareSql_wellTyped hl.any hr.any
  | and _ _ hl hr ihl ihr =>
    rw [Sql.allOf_eq]
    refine Sql.WellTyped.combine ?_
    simpa using ⟨ihl.weaken (valueClass_of_condition hl), ihr.weaken (valueClass_of_condition hr)⟩
  | or _ _ hl hr ihl ihr =>
    rw [Sql.anyOf_eq]
    refine Sql.WellTyped.combine ?_
    simpa using ⟨ihl.weaken (valueClass_of_condition hl), ihr.weaken (valueClass_of_condition hr)⟩
  | inList _ _ hlen _ hlen' hbrought _ ih ihs =>
    refine .inList ih.any fun y hy => ?_
    obtain ⟨b, hb, rfl⟩ := List.mem_map.mp hy
    obtain ⟨a, ha⟩ := exists_zip_of_mem hlen' hb
    obtain ⟨tree, htree⟩ := exists_zip_of_mem hlen (List.of_mem_zip ha).1
    exact wholeItem_wellTyped ((hbrought ha).1.wellTyped (ihs htree)).any
  | between _ _ _ hlow hhigh _ _ ih ihlow ihhigh =>
    exact .between ih.any (hlow.wellTyped ihlow).any (hhigh.wellTyped ihhigh).any
  | like _ _ _ _ ih ihp => exact like_wellTyped _ ih.any (widenPattern_wellTyped ihp.any)
  | ilike _ _ _ _ ih ihp =>
    exact like_wellTyped _ (lower_wellTyped ih.any) (lower_wellTyped (widenPattern_wellTyped ihp.any))
  | isNull _ ih => exact .isNull ih.any
  | isDateRange _ _ _ ih | isDatetimeRange _ _ _ ih =>
    exact .between ih.any (Sql.WellTyped.literal _).any (Sql.WellTyped.literal _).any
  | countAll => exact .countAll
  | aggregate _ _ _ hcompiles hfaults ih => exact apply_wellTyped ih hcompiles.not_broken hfaults
  | cond _ hargs hlen _ _ hbranched ih =>
    obtain ⟨hwhens, helse⟩ := hbranched.wellTyped (forall_of_zip hlen ih)
    exact .case (hbranched.whens_ne_nil (by omega)) (fun w hw => (hwhens w hw).1) (fun w hw => (hwhens w hw).2) helse
  | coalesce _ hargs hlen _ htype hlen' hbrought ih =>
    subst htype
    refine .coalesce ?_ fun x hx => ?_
    · rw [Ne, List.map_eq_nil_iff, ← List.length_eq_zero_iff, ← hlen', ← hlen, List.length_eq_zero_iff]
      exact hargs
    · obtain ⟨b, hb, rfl⟩ := List.mem_map.mp hx
      obtain ⟨a, ha⟩ := exists_zip_of_mem hlen' hb
      have hmem := (List.of_mem_zip ha).1
      exact coalesced_wellTyped hmem (forall_of_zip hlen ih a hmem) (hbrought ha).1 (hbrought ha).2
  | substr _ hleast _ hlen _ _ ih =>
    refine .scalar (by simp) ?_ fun x hx => ?_
    · rw [Ne, List.map_eq_nil_iff, ← List.length_eq_zero_iff]
      omega
    · obtain ⟨t, ht, rfl⟩ := List.mem_map.mp hx
      exact (forall_of_zip hlen ih t ht).any
  | string _ _ ih => exact .castText ih.any
  | int _ _ ih => exact .castInt ih.any
  | trunc _ _ htemporal ih =>
    rw [Typed.WellTyped, valueClass_of_temporal htemporal] at ih
    exact .dateTrunc ih
  | dateOfText => exact .literal (.datetime _)
  | dateOfDatetime _ _ htype ih =>
    rw [Typed.WellTyped, htype] at ih
    exact .dateTrunc ih
  | total _ ih => exact .total ih

end ShelfQuery.Expression
