import ShelfQuery.Proofs.Compiler.Evaluation
import ShelfQuery.Proofs.Compiler.Visit
import ShelfQuery.Proofs.Sql.ThreeValued
import ShelfQuery.Proofs.Text.Order

set_option autoImplicit false

namespace ShelfQuery.Expression

open ShelfQuery.Sql ShelfQuery.Schema ShelfQuery.Number
open ShelfQuery.Engine (allTrue anyTrue notTrue)

variable {a b : Value} {x : Sql} {type : ValueType} {tree : Tree} {t : Typed}

theorem compareTexts_swap (s t : String) : compareTexts t s = (compareTexts s t).swap := by
  unfold compareTexts
  by_cases hst : Text.before s.toList t.toList = true
  · have hne : t ≠ s := by
      rintro rfl
      exact nomatch (Text.before_asymm hst).symm.trans hst
    simp [hst, Text.before_asymm hst, hne]
  · simp only [Bool.not_eq_true] at hst
    by_cases heq : s = t
    · subst heq
      simp [hst]
    · have hlists : s.toList ≠ t.toList := fun h => heq (String.toList_inj.mp h)
      have hts := Text.before_of_not hst hlists
      simp [hst, hts, heq]

theorem compare?_swap (a b : Value) : b.compare? a = (a.compare? b).map Ordering.swap := by
  cases a with
  | null => cases b <;> rfl
  | num x =>
    cases b with
    | num y => exact congrArg some Std.OrientedCmp.eq_swap
    | _ => rfl
  | text s =>
    cases b with
    | text t => exact congrArg some (compareTexts_swap s t)
    | _ => rfl

theorem exact_mirror (op : CompareOp) (a b : Value) : op.mirror.exact b a = op.exact a b := by
  rw [CompareOp.exact, compare?_swap, CompareOp.exact]
  cases a.compare? b with
  | none => rfl
  | some o => cases op <;> cases o <;> rfl

section

variable {p : Primitives} {f : Frame}

/-- Values of which SQL says no more than that they are null, or that have one kind. -/
inductive Comparable : Value → Value → Prop where
  | left (v : Value) : Comparable .null v
  | right (v : Value) : Comparable v .null
  | nums (x y : ℚ) : Comparable (.num x) (.num y)
  | texts (s t : String) : Comparable (.text s) (.text t)

theorem Comparable.symm (h : Comparable a b) : Comparable b a := by
  cases h with
  | left => exact .right b
  | right => exact .left a
  | nums x y => exact .nums y x
  | texts s t => exact .texts t s

theorem comparable_of_class {k : ValueClass} (hk : k ≠ .any) (ha : a.HasClass k) (hb : b.HasClass k) :
    Comparable a b := by
  cases ha with
  | null => exact .left b
  | any => exact absurd rfl hk
  | bool =>
    cases hb with
    | null => exact .right _
    | bool => exact .nums _ _
  | num =>
    cases hb with
    | null => exact .right _
    | num => exact .nums _ _
  | text =>
    cases hb with
    | null => exact .right _
    | text => exact .texts _ _

theorem comparable_of_compatible {l r : ValueType} (h : l.compatible r = true) (hl : l.isBroken = false)
    (ha : a.HasClass l.valueClass) (hb : b.HasClass r.valueClass) : Comparable a b := by
  by_cases hnull : l = .null
  · rw [hnull] at ha
    cases ha
    exact .left b
  · have hk : l.valueClass ≠ .any := by
      cases l with
      | unknown | broken => exact nomatch hl
      | _ => exact nofun
    exact comparable_of_class hk ha (hb.mono (valueClass_of_compatible h hnull))

theorem holds_eq_exact {op : CompareOp} (hop : op ≠ .like) (h : Comparable a b) : p.holds op a b = op.exact a b := by
  unfold Primitives.holds
  rw [if_neg hop]
  cases h with
  | left => rfl
  | right => cases a <;> rfl
  | nums x y => rfl
  | texts s t => rfl

def Arith.numeric : Arith → ArithOp
  | .add => .add
  | .sub => .sub
  | .mul => .mul
  | .div => .div

theorem arith_numeric (op : Arith) (ha : a.HasClass .num) (hb : b.HasClass .num) :
    p.arith op.numeric a b = op.exact a b := by
  cases ha with
  | null => rfl
  | num x =>
    cases hb with
    | null => rfl
    | num y => cases op <;> rfl

theorem arith_neg {v : Value} (h : v.HasClass .num) : p.arith .sub (.num 0) v = v.negate := by
  cases h with
  | null => rfl
  | num x => simp [Primitives.arith, Value.negate]

theorem arith_concat (ha : a.HasClass .text) (hb : b.HasClass .text) : p.arith .concat a b = Arith.add.exact a b := by
  cases ha with
  | null => rfl
  | text s =>
    cases hb with
    | null => rfl
    | text t => rfl

variable (hcast : ∀ x, p.cast .float (.num x) = .num x)

include hcast

theorem eval_castFloat (h : (x.eval p f).HasClass .num) : (Sql.cast x .float).eval p f = x.eval p f := by
  rw [Sql.eval]
  generalize x.eval p f = v at h
  cases h with
  | null => rfl
  | num q => exact hcast q

theorem eval_asFloat (h : (x.eval p f).HasClass .num) : (asFloat x).eval p f = x.eval p f := by
  unfold asFloat
  split
  · rfl
  · exact eval_castFloat hcast h

theorem eval_divide {num den sql : Sql} (h : divide num den = .ok sql) (hnum : (num.eval p f).HasClass .num)
    (hden : (den.eval p f).HasClass .num) : sql.eval p f = Arith.div.exact (num.eval p f) (den.eval p f) := by
  unfold divide at h
  split at h
  · next l =>
    split at h
    · cases h
    · split at h
      · next hone =>
        cases h
        have hvalue : Sql.eval p f (.literal l) = .num 1 := isOne_value hone
        rw [hvalue]
        generalize num.eval p f = v at hnum
        cases hnum with
        | null => rfl
        | num q => simp [Arith.exact]
      · cases h
        have hquotient : p.arith .div ((asFloat num).eval p f) l.value = p.arith .div (num.eval p f) l.value := by
          rw [eval_asFloat hcast hnum]
        exact hquotient.trans (arith_numeric .div hnum hden)
  · cases h
    have hzero : Sql.truthIn p f (.compare .eq den (.literal (.int 0))) =
        CompareOp.eq.exact (den.eval p f) (.num 0) := by
      rw [Sql.truthIn, Sql.eval, Primitives.truth_ofTruth]
      exact holds_eq_exact (by decide) (comparable_of_class (by decide) hden (.num 0))
    have hquotient : Sql.eval p f (.arith .div (asFloat num) (.cast den .float)) =
        Arith.div.exact (num.eval p f) (den.eval p f) := by
      rw [Sql.eval, eval_asFloat hcast hnum, eval_castFloat hcast hden]
      exact arith_numeric .div hnum hden
    rw [Sql.eval, evalWhens, evalWhens, evalElse, hquotient]
    rw [Sql.truthIn] at hzero
    rw [hzero]
    split
    · next htrue =>
      have hden0 : den.eval p f = .num 0 := by
        generalize den.eval p f = v at hden htrue
        cases hden with
        | null => cases htrue
        | num q => simpa [CompareOp.exact, Value.compare?, holdsFor] using htrue
      rw [hden0]
      cases num.eval p f <;> simp [Arith.exact, Sql.null, Sql.eval, Literal.value]
    · rfl

theorem eval_arithSql {op : Arith} {l r sql : Sql} {lt rt type : ValueType} (htype : Operands op lt rt type)
    (hl : (l.eval p f).HasClass lt.valueClass) (hr : (r.eval p f).HasClass rt.valueClass)
    (h : arithSql op type l r = .ok sql) : sql.eval p f = op.exact (l.eval p f) (r.eval p f) := by
  cases htype with
  | numbers hlt hrt =>
    have hl' := hl.mono hlt
    have hr' := hr.mono hrt
    cases op with
    | div => exact eval_divide hcast h hl' hr'
    | add =>
      cases h
      exact arith_numeric .add hl' hr'
    | sub =>
      cases h
      exact arith_numeric .sub hl' hr'
    | mul =>
      cases h
      exact arith_numeric .mul hl' hr'
  | texts hlt hrt =>
    cases h
    exact arith_concat (hl.mono hlt) (hr.mono hrt)
  | nulls =>
    cases h
    exact arith_numeric .add (hl.mono .null) (hr.mono .null)

omit hcast

theorem eval_comparison {op : CompareOp} (hop : op ≠ .like) {l r : Sql} (h : Comparable (l.eval p f) (r.eval p f))
    (hexact : ∀ a b, l = .literal a → r = .literal b → comparesExactly a b = true) :
    (comparison op l r).eval p f =
      if r.isNullLiteral && (op == .eq || op == .ne) then .ofTruth (some ((l.eval p f).isNull != (op == .ne)))
      else .ofTruth (op.exact (l.eval p f) (r.eval p f)) := by
  unfold comparison
  split
  · rw [Sql.eval]
  · have hcompare : (Sql.compare op l r).eval p f = .ofTruth (op.exact (l.eval p f) (r.eval p f)) := by
      rw [Sql.eval, holds_eq_exact hop h]
    split
    · next a b ha hb =>
      split
      · next result hfold =>
        have hl := literal?_eq_some ha
        have hr := literal?_eq_some hb
        rw [hl, hr]
        exact congrArg Value.ofTruth (foldCompare?_exact hfold (hexact a b hl hr)).symm
      · exact hcompare
    · exact hcompare

theorem eval_of_isNullLiteral (h : x.isNullLiteral = true) : x.eval p f = .null := by
  cases x with
  | literal l => cases l <;> first | rfl | exact nomatch h
  | _ => exact nomatch h

theorem Comparison.op_ne_like (op : Comparison) : op.op ≠ .like := by
  cases op <;> exact nofun

theorem Comparison.isEquality_op (op : Comparison) : (op.op == .eq || op.op == .ne) = op.isEquality := by
  cases op <;> rfl

theorem Comparison.mirror_op {op : Comparison} (h : op.isEquality = true) : op.op.mirror = op.op := by
  cases op <;> first | rfl | exact nomatch h

theorem Comparison.nullTest {op : Comparison} (h : op.isEquality = true) (b : Bool) :
    (b != (op.op == .ne)) = (b == (op == .eq)) := by
  cases op with
  | eq | ne => cases b <;> rfl
  | _ => exact nomatch h

theorem Comparison.isEquality_mirror (op : Comparison) :
    (op.op.mirror == .eq || op.op.mirror == .ne) = op.isEquality := by
  cases op <;> rfl

/-- A comparison means what it meant, unless it asks whether null equals a constant on its right. -/
theorem eval_compareSql (op : Comparison) {l r : Sql} (h : Comparable (l.eval p f) (r.eval p f))
    (hexact : ∀ a b, l = .literal a → r = .literal b → comparesExactly a b = true)
    (hnull : op.isEquality = true → l.isNullLiteral = true → r.isLiteral = true → r.isNullLiteral = true) :
    (compareSql op.op l r).eval p f =
      .ofTruth (op.holds l.isNullLiteral r.isNullLiteral (l.eval p f) (r.eval p f)) := by
  rw [compareSql_eq]
  unfold Comparison.holds
  split
  · next hswap =>
    simp only [Bool.and_eq_true, Bool.not_eq_true'] at hswap
    have hliterals : ∀ a b, r = .literal a → l = .literal b → comparesExactly a b = true := by
      rintro a b rfl -
      exact nomatch hswap.2
    rw [eval_comparison (by cases op <;> exact nofun) h.symm hliterals, op.isEquality_mirror, exact_mirror,
      isNullLiteral_of_not_literal hswap.2]
    cases hequality : op.isEquality with
    | false => simp
    | true =>
      rw [Comparison.mirror_op hequality, Comparison.nullTest hequality]
      cases l.isNullLiteral <;> rfl
  · next hswap =>
    rw [eval_comparison op.op_ne_like h hexact, op.isEquality_op]
    cases hequality : op.isEquality with
    | false => simp
    | true =>
      rw [Comparison.nullTest hequality]
      cases hl : l.isNullLiteral with
      | false => cases r.isNullLiteral <;> rfl
      | true =>
        have hliteral : l.isLiteral = true := by
          refine Bool.eq_true_of_not_eq_false fun hl' => ?_
          exact nomatch (isNullLiteral_of_not_literal hl').symm.trans hl
        have hr : r.isNullLiteral = true := hnull hequality hl (by simpa [hliteral] using hswap)
        rw [hr, eval_of_isNullLiteral hl, eval_of_isNullLiteral hr]
        rfl

end

section

variable {c : Context} {scope : Scope}

theorem Paired.eq_of_not_temporal {l r l' r' : Typed} (h : Paired c l r l' r') (hl : l.type.isTemporal = false)
    (hr : r.type.isTemporal = false) : l' = l ∧ r' = r := by
  cases h with
  | right htemporal => exact nomatch hl.symm.trans htemporal
  | left _ htemporal => exact nomatch hr.symm.trans htemporal
  | same => exact ⟨rfl, rfl⟩

theorem eq_of_brought {target : ValueType} {wholeDay : Bool} (htarget : target.isTemporal = false)
    {visited brought : List Typed} (hlen : visited.length = brought.length)
    (h : ∀ ⦃a b⦄, (a, b) ∈ visited.zip brought → Brought c target wholeDay a b) : brought = visited := by
  have hmap : brought.map id = visited.map id :=
    map_eq_of_zip hlen fun a b hab => (h hab).eq_of_not_temporal htarget
  simpa using hmap

theorem commonType_not_temporal {ts : List Typed} (h : ∀ t ∈ ts, t.type.isTemporal = false) :
    (commonType ts).isTemporal = false := by
  by_cases hnull : commonType ts = .null
  · rw [hnull]
    rfl
  · obtain ⟨t, ht, heq⟩ := commonType_mem hnull
    rw [← heq]
    exact h t ht

theorem elementary_column {schema : Table} {pos : Nat} {name : String} {column : Column}
    (hfind : schema.find? name = some column) (h : (Tree.column pos name).isElementary schema = true) :
    (ValueType.ofDataType column.datatype).isTemporal = false := by
  rw [Tree.isElementary, hfind] at h
  have hcolumn : column.datatype.isTemporal = false := by simpa using h
  generalize column.datatype = d at hcolumn
  cases d <;> first | rfl | exact nomatch hcolumn

theorem elementary_args {schema : Table} {pos : Nat} {name : String} {args : List Tree} {scalar : Scalar}
    (hname : Function.ofName? name = some (.scalar scalar)) (h : (Tree.call pos name args).isElementary schema = true) :
    (scalar = .if ∨ scalar = .coalesce) ∧ ∀ arg ∈ args, arg.isElementary schema = true := by
  rw [Tree.isElementary, hname] at h
  cases scalar with
  | «if» => exact ⟨.inl rfl, areElementary_iff.mp h⟩
  | coalesce => exact ⟨.inr rfl, areElementary_iff.mp h⟩
  | _ => exact nomatch h

theorem Compiles.not_temporal (h : Compiles c scope tree t)
    (he : tree.isElementary c.schema = true) : t.type.isTemporal = false := by
  have hmember {args : List Tree} {visited : List Typed} (hlen : args.length = visited.length)
      (ih : ∀ ⦃a b⦄, (a, b) ∈ args.zip visited → a.isElementary c.schema = true → b.type.isTemporal = false)
      (hargs : ∀ a ∈ args, a.isElementary c.schema = true) : ∀ t ∈ visited, t.type.isTemporal = false :=
    forall_of_zip hlen fun a _ hab => ih hab (hargs a (List.of_mem_zip hab).1)
  induction h with
  | column hfind | columnTrunc hfind =>
    exact elementary_column hfind he
  | constant => rename_i value _; cases value <;> rfl
  | negNull _ _ hnull => rw [hnull]; rfl
  | arithFold _ _ hop | arith _ _ hop => exact (operands_of_arithType? hop).not_temporal
  | cond hname _ hlen _ htype _ ih =>
    rw [htype]
    exact commonType_not_temporal fun t ht =>
      hmember hlen ih (elementary_args hname he).2 t (mem_of_mem_branchValues ht)
  | coalesce hname _ hlen _ htype _ _ ih =>
    rw [htype]
    exact commonType_not_temporal (hmember hlen ih (elementary_args hname he).2)
  | aggregate hname =>
    rw [Tree.isElementary, hname] at he
    exact nomatch he
  | trunc hname | dateOfText hname | dateOfDate hname | dateOfDatetime hname =>
    obtain ⟨h | h, -⟩ := elementary_args hname he <;> exact nomatch h
  | total => exact nomatch he
  | _ => rfl

end

section

variable {p : Primitives} {f : Frame} {c : Context} {scope : Scope}

theorem truth_of_class {v : Value} (h : v.HasClass .bool) : p.truth v = v.truth := by
  cases h with
  | null => rfl
  | bool b => rfl

theorem eval_wholeItem (x : Sql) : (wholeItem x).eval p f = x.eval p f := by
  unfold wholeItem
  split
  · next y =>
    split
    · next n hn =>
      split
      · exact congrArg Value.num (Binary64.value_toInt? hn).symm
      · rfl
    · rfl
  · rfl

theorem Branched.eval_eq {visited : List Typed} {whens : List (Sql × Sql)} {otherwise : Option Sql}
    (h : Branched c type visited whens otherwise) (htype : type.isTemporal = false)
    (hclass : ∀ t ∈ visited, (t.sql.eval p f).HasClass t.type.valueClass) :
    (Sql.case whens otherwise).eval p f = .choose (visited.map fun t => t.sql.eval p f) := by
  induction h with
  | done => rfl
  | otherwise _ _ hbrought =>
    rw [hbrought.eq_of_not_temporal htype]
    rfl
  | otherwiseNull _ hnull => exact (eval_of_isNullLiteral hnull).symm
  | @when condition v v' rest whens otherwise hbool _ hbrought _ ih =>
    have hcondition : (condition.sql.eval p f).HasClass .bool := by
      have hcond := hclass condition (List.mem_cons_self ..)
      rwa [hbool] at hcond
    have hrest := ih fun t ht => hclass t (List.mem_cons_of_mem _ (List.mem_cons_of_mem _ ht))
    rw [hbrought.eq_of_not_temporal htype, Sql.eval, evalWhens, truth_of_class hcondition, List.map_cons, List.map_cons,
      Value.choose]
    split
    · rfl
    · exact hrest

section

variable {left right : Tree} {l r : Typed} (hleft : Compiles c scope left l) (hright : Compiles c scope right r)

include hleft

theorem Compiles.foldsToNull_eq : left.foldsToNull = l.sql.isNullLiteral := by
  rw [Tree.foldsToNull, hleft.nullSign?_eq, isNullLiteral_eq]

theorem Compiles.constant?_of_plain {a : Literal} (hl : l.sql = .literal a) (ha : plainLiteral? a = some a) :
    left.constant? = some a := by
  rw [hleft.constant?_eq, hl, plain?_literal, ha]

include hright

theorem Compiles.all_constants {P : Literal → Literal → Bool} {a b : Literal} (hl : l.sql = .literal a)
    (hr : r.sql = .literal b) (hltype : l.type.isTemporal = false) (hrtype : r.type.isTemporal = false)
    (h : (left.constant?.all fun a => right.constant?.all fun b => P a b) = true) :
    a = .null ∨ b = .null ∨ P a b = true := by
  rcases hleft.literal_cases hltype hl with ha | ha
  · exact .inl ha
  rcases hright.literal_cases hrtype hr with hb | hb
  · exact .inr (.inl hb)
  rw [hleft.constant?_of_plain hl ha, hright.constant?_of_plain hr hb] at h
  exact .inr (.inr h)

theorem Compiles.foldArith_value {op : Arith} {a b v : Literal}
    (htype : arithType? op l.type r.type = some type) (hl : l.sql = .literal a) (hr : r.sql = .literal b)
    (hfold : foldArith op a b = .ok v)
    (hexact : (left.constant?.all fun a => right.constant?.all fun b => calculatesExactly op a b) = true) :
    v.value = op.exact a.value b.value := by
  obtain ⟨hltype, hrtype⟩ := arithType?_not_temporal htype
  have hunrounded : isUnrounded v (op.exact a.value b.value) = true := by
    have hnull (hnull : a = .null ∨ b = .null) : isUnrounded v (op.exact a.value b.value) = true := by
      rw [foldArith_null hfold hnull]
      rfl
    rcases hleft.all_constants hright hl hr hltype hrtype hexact with ha | hb | h
    · exact hnull (.inl ha)
    · exact hnull (.inr hb)
    · rwa [calculatesExactly, hfold] at h
  have hlwell := hleft.wellTyped
  have hrwell := hright.wellTyped
  rw [Typed.WellTyped, hl] at hlwell
  rw [Typed.WellTyped, hr] at hrwell
  exact (folded_of_foldArith hfold).value_eq (operands_of_arithType? htype) hlwell.literal_class hrwell.literal_class
    (hleft.literal_cases hltype hl) (hright.literal_cases hrtype hr) hunrounded

end

section

variable (hp : p.Lawful) (hf : f.Conforms c.schema)

include hp hf

theorem Compiles.eval_hasClass (h : Compiles c scope tree t) :
    (t.sql.eval p f).HasClass t.type.valueClass := h.wellTyped.eval_hasClass hp hf

theorem Compiles.eval_negate (h : Compiles c scope tree t) (htype : t.type = .bool) :
    t.sql.negate.eval p f = .ofTruth (notTrue (t.sql.eval p f).truth) := by
  have hwell := h.wellTyped
  rw [Typed.WellTyped, htype] at hwell
  rw [← truth_of_class (hwell.eval_hasClass hp hf)]
  exact Sql.eval_negate fun y hy => (hy ▸ hwell).not_inv.1.eval_hasClass hp hf

variable {left right : Tree} {l r : Typed} (hleft : Compiles c scope left l) (hright : Compiles c scope right r)

include hleft hright

theorem Compiles.eval_combine (settles : Bool) (hl : l.type.isCondition) (hr : r.type.isCondition) :
    (Sql.combine settles [l.sql, r.sql]).eval p f =
      .ofTruth (kleene settles [(l.sql.eval p f).truth, (r.sql.eval p f).truth]) := by
  have hlwell := hleft.wellTyped.weaken (valueClass_of_condition hl)
  have hrwell := hright.wellTyped.weaken (valueClass_of_condition hr)
  have hopened : ∀ x ∈ [l.sql, r.sql], ∀ y ∈ x.opened settles, (y.eval p f).HasClass .bool := by
    intro x hx y hy
    simp only [List.mem_cons, List.not_mem_nil, or_false] at hx
    rcases hx with rfl | rfl
    · exact (hlwell.opened settles y hy).eval_hasClass hp hf
    · exact (hrwell.opened settles y hy).eval_hasClass hp hf
  rw [← truth_of_class (hlwell.eval_hasClass hp hf), ← truth_of_class (hrwell.eval_hasClass hp hf)]
  exact Sql.eval_combine hopened

theorem Compiles.comparable (h : l.type.compatible r.type = true) : Comparable (l.sql.eval p f) (r.sql.eval p f) :=
  comparable_of_compatible h hleft.not_broken (hleft.eval_hasClass hp hf) (hright.eval_hasClass hp hf)

theorem Compiles.eval_compareSql (op : Comparison) (hltype : l.type.isTemporal = false)
    (hrtype : r.type.isTemporal = false) (hcompatible : l.type.compatible r.type = true)
    (hexact : (left.constant?.all fun a => right.constant?.all fun b => comparesExactly a b) = true)
    (hnull : (op.isEquality && left.foldsToNull && right.constant?.isSome) = false) :
    (compareSql op.op l.sql r.sql).eval p f =
      .ofTruth (op.holds left.foldsToNull right.foldsToNull (l.sql.eval p f) (r.sql.eval p f)) := by
  rw [hleft.foldsToNull_eq, hright.foldsToNull_eq]
  refine Expression.eval_compareSql op (hleft.comparable hp hf hright hcompatible) ?_ ?_
  · intro a b ha hb
    rcases hleft.all_constants hright ha hb hltype hrtype hexact with rfl | rfl | h
    · rfl
    · cases a <;> rfl
    · exact h
  · intro hequality hlnull hrliteral
    rw [hequality, hleft.foldsToNull_eq, hlnull] at hnull
    cases hsql : r.sql with
    | literal b =>
      rcases hright.literal_cases hrtype hsql with rfl | hb
      · rfl
      · rw [hright.constant?_of_plain hsql hb] at hnull
        exact nomatch hnull
    | _ =>
      rw [hsql] at hrliteral
      exact nomatch hrliteral

end

theorem Compiles.eval_eq (hp : p.Lawful) (hcast : ∀ x, p.cast .float (.num x) = .num x) (hf : f.Conforms c.schema)
    {row : Row} (hrow : f.row = some row) (h : Compiles c scope tree t)
    (he : tree.isElementary c.schema = true) (hexact : tree.foldsExactly = true) :
    t.sql.eval p f = tree.eval c.schema row := by
  have hclass {scope : Scope} {tree : Tree} {t : Typed} (h : Compiles c scope tree t) := h.eval_hasClass hp hf
  have hvalues {args : List Tree} {visited : List Typed} (hlen : args.length = visited.length)
      (ih : ∀ ⦃a b⦄, (a, b) ∈ args.zip visited → a.isElementary c.schema = true → a.foldsExactly = true →
        b.sql.eval p f = a.eval c.schema row)
      (he : ∀ a ∈ args, a.isElementary c.schema = true) (hexact : ∀ a ∈ args, a.foldsExactly = true) :
      (visited.map fun t => t.sql.eval p f) = args.map (Tree.eval c.schema row) :=
    map_eq_of_zip hlen fun a b hab => ih hab (he a (List.of_mem_zip hab).1) (hexact a (List.of_mem_zip hab).1)
  induction h with
  | column hfind => rw [Tree.eval, hfind, Sql.eval, Frame.column, hrow]
  | columnTrunc hfind _ htrunc => cases (elementary_column hfind he).symm.trans (truncation?_temporal htrunc)
  | constant => rfl
  | negLiteral harg hl hnumber ih =>
    rw [Tree.foldsExactly, Bool.and_eq_true] at hexact
    rw [Tree.eval, ← ih he hexact.1, hl]
    rw [harg.constant?_of_plain hl (plainLiteral?_of_number hnumber)] at hexact
    exact negateLiteral_value hnumber hexact.2
  | neg harg _ htype ih =>
    rw [Tree.foldsExactly, Bool.and_eq_true] at hexact
    have hnum := hclass harg
    rw [htype] at hnum
    rw [Tree.eval, ← ih he hexact.1, Sql.eval]
    exact arith_neg hnum
  | negNull harg _ htype ih =>
    rw [Tree.foldsExactly, Bool.and_eq_true] at hexact
    have hnull := hclass harg
    rw [htype] at hnull
    rw [Tree.eval, ← ih he hexact.1]
    generalize Sql.eval p f _ = v at hnull
    cases hnull
    rfl
  | not harg htype ih =>
    rw [Tree.eval, ← ih he hexact]
    exact harg.eval_negate hp hf htype
  | arithFold hleft hright htype hl hr hfold ihl ihr =>
    simp only [Tree.isElementary, Tree.foldsExactly, Bool.and_eq_true] at he hexact
    rw [Tree.eval, ← ihl he.1 hexact.1.1, ← ihr he.2 hexact.1.2, hl, hr]
    exact hleft.foldArith_value hright htype hl hr hfold hexact.2
  | arith hleft hright htype hliteral hsql ihl ihr =>
    simp only [Tree.isElementary, Tree.foldsExactly, Bool.and_eq_true] at he hexact
    rw [Tree.eval, ← ihl he.1 hexact.1.1, ← ihr he.2 hexact.1.2]
    exact eval_arithSql hcast (operands_of_arithType? htype) (hclass hleft) (hclass hright) hsql
  | compare hleft hright hpair hcompatible ihl ihr =>
    simp only [Tree.isElementary, Tree.foldsExactly, Bool.and_eq_true, Bool.not_eq_true'] at he hexact
    obtain ⟨⟨⟨hl, hr⟩, hconstants⟩, hnull⟩ := hexact
    have hltype := hleft.not_temporal he.1
    have hrtype := hright.not_temporal he.2
    obtain ⟨rfl, rfl⟩ := hpair.eq_of_not_temporal hltype hrtype
    rw [Tree.eval, ← ihl he.1 hl, ← ihr he.2 hr]
    exact hleft.eval_compareSql hp hf hright _ hltype hrtype hcompatible hconstants hnull
  | and hleft hright hl hr ihl ihr =>
    simp only [Tree.isElementary, Tree.foldsExactly, Bool.and_eq_true] at he hexact
    rw [Tree.eval, ← ihl he.1 hexact.1, ← ihr he.2 hexact.2, Sql.allOf_eq]
    exact hleft.eval_combine hp hf hright false hl hr
  | or hleft hright hl hr ihl ihr =>
    simp only [Tree.isElementary, Tree.foldsExactly, Bool.and_eq_true] at he hexact
    rw [Tree.eval, ← ihl he.1 hexact.1, ← ihr he.2 hexact.2, Sql.anyOf_eq]
    exact hleft.eval_combine hp hf hright true hl hr
  | @inList _ _ _ items negated t visited brought harg _ hlen hitems hlen' hbrought _ ih ihs =>
    simp only [Tree.isElementary, Tree.foldsExactly, Bool.and_eq_true] at he hexact
    have htype := harg.not_temporal he.1
    obtain rfl := eq_of_brought htype hlen' fun a b hab => (hbrought hab).1
    have hcompatible := forall_of_zip hlen' fun a b hab => (hbrought hab).2
    have hvalues : ((brought.map fun b => wholeItem b.sql).map (Sql.eval p f)).map (p.holds .eq (t.sql.eval p f)) =
        (items.map (Tree.eval c.schema row)).map (CompareOp.eq.exact (t.sql.eval p f)) := by
      simp only [List.map_map]
      refine map_eq_of_zip hlen fun a b hab => ?_
      obtain ⟨ha, hb⟩ := List.of_mem_zip hab
      have hvalue := ihs hab (areElementary_iff.mp he.2 a ha) (foldExactly_iff.mp hexact.2 a ha)
      simp only [Function.comp_apply]
      rw [eval_wholeItem, ← hvalue]
      exact holds_eq_exact (by decide) (harg.comparable hp hf (hitems hab) (hcompatible b hb))
    rw [Tree.eval, ← ih he.1 hexact.1, Sql.eval, evalAll_eq_map, evalTrees_eq_map, hvalues]
  | between harg hlow hhigh hlow' hhigh' hl hh ih ihl ihh =>
    simp only [Tree.isElementary, Tree.foldsExactly, Bool.and_eq_true] at he hexact
    have htype := harg.not_temporal he.1.1
    obtain rfl := hlow'.eq_of_not_temporal htype
    obtain rfl := hhigh'.eq_of_not_temporal htype
    have hge := harg.comparable hp hf hlow hl
    have hle := harg.comparable hp hf hhigh hh
    rw [Tree.eval, ← ih he.1.1 hexact.1.1, ← ihl he.1.2 hexact.1.2, ← ihh he.2 hexact.2, Sql.eval,
      holds_eq_exact (by decide) hge, holds_eq_exact (by decide) hle]
  | isNull harg ih => rw [Tree.eval, ← ih he hexact, Sql.eval]
  | cond hname htwo hlen hargs htype hbranched ih =>
    have htype' := (Compiles.cond hname htwo hlen hargs htype hbranched).not_temporal he
    have hargs' := hvalues hlen ih (elementary_args hname he).2 (foldExactly_iff.mp hexact)
    rw [Tree.eval, hname, evalTrees_eq_map, ← hargs']
    exact hbranched.eval_eq htype' (forall_of_zip hlen fun a b hab => hclass (hargs hab))
  | coalesce hname hne hlen hargs htype hlen' hbrought ih =>
    have htype' := (Compiles.coalesce hname hne hlen hargs htype hlen' hbrought).not_temporal he
    obtain rfl := eq_of_brought htype' hlen' fun a b hab => (hbrought hab).1
    have hargs' := hvalues hlen ih (elementary_args hname he).2 (foldExactly_iff.mp hexact)
    rw [Tree.eval, hname, evalTrees_eq_map, ← hargs', Sql.eval, if_neg (by decide), if_pos rfl, evalAll_eq_map,
      List.map_map]
    rfl
  | countAll hname | aggregate hname =>
    rw [Tree.isElementary, hname] at he
    cases he
  | substr hname | string hname | int hname | trunc hname
  | dateOfText hname | dateOfDate hname | dateOfDatetime hname =>
    obtain ⟨h | h, -⟩ := elementary_args hname he <;> cases h
  | _ => cases he

end

/-- On every row that conforms to the schema, what an elementary tree is compiled to has the value of the
tree, provided that folding does not round its constants and that no null is asked to equal a constant
on its right. -/
theorem Tree.eval_compile (p : Primitives) (hp : p.Lawful) (hcast : ∀ x, p.cast .float (.num x) = .num x) (c : Context)
    (tree : Tree) (compiled : Compiled) (h : tree.compile c = .ok compiled) (he : tree.isElementary c.schema = true)
    (hexact : tree.foldsExactly = true) (f : Frame) (hf : f.Conforms c.schema) (row : Row) (hrow : f.row = some row) :
    compiled.sql.eval p f = tree.eval c.schema row :=
  (compiles_of_compile h).1.eval_eq hp hcast hf hrow he hexact

def bareDatabase : Primitives where
  mixedArith _ _ _ := .null
  mixedOrder _ _ := .lt
  textTruth _ := none
  like _ _ := false
  cast
    | .float, .num x => .num x
    | _, _ => .null
  call _ _ := .null
  dateTrunc _ _ _ := .null
  aggregate _ _ := .null
  countDistinct _ := .null
  percentile _ _ := .null
  subquery _ := .null

theorem bareDatabase_lawful : bareDatabase.Lawful where
  castFloat v := by
    cases v with
    | num x => exact .num x
    | _ => exact .null
  castInteger _ := .null
  castVarchar _ := .null
  call _ _ _ := .null
  dateTrunc _ _ _ := .null
  sum _ _ _ := .null
  extremum _ _ _ := .inl rfl
  countDistinct _ := .null
  percentile _ _ := .null
  subquery _ := .inl rfl

def scores : Context :=
  ⟨⟨"scores", [⟨"score", .num⟩, ⟨"valid", .bool⟩]⟩, .sqlite, {}, .startOfDay ⟨2024, 1, 1, by decide⟩⟩

def scoreRow (score : ℚ) (valid : Option Bool) : Row := fun name =>
  if name = "score" then .num score else .ofTruth valid

def scoreFrame (score : ℚ) (valid : Option Bool) : Frame :=
  ⟨[scoreRow score valid], [scoreRow score valid], some (scoreRow score valid)⟩

theorem scoreFrame_conforms (score : ℚ) (valid : Option Bool) : (scoreFrame score valid).Conforms scores.schema := by
  have hrow : (scoreRow score valid).Conforms scores.schema := by
    intro column hcolumn _
    simp only [scores, List.mem_cons, List.not_mem_nil, or_false] at hcolumn
    rcases hcolumn with rfl | rfl
    · exact .num score
    · exact .ofTruth valid
  exact ⟨by simpa [scoreFrame] using hrow, by simpa [scoreFrame] using hrow, fun _ h => Option.some.inj h ▸ hrow⟩

/-- A negated quotient or a constant, by a condition of which one half is unknown. -/
theorem Tree.eval_compile_choice :
    let tree : Tree := .call 0 "if" [
      .or 0 (.column 0 "valid") (.compare 0 .lt (.arith 0 .add (.constant 0 (.int 1)) (.constant 0 (.int 2)))
        (.column 0 "score")),
      .neg 0 (.arith 0 .div (.column 0 "score") (.column 0 "score")),
      .constant 0 (.int 7)]
    tree.isElementary scores.schema = true ∧ tree.foldsExactly = true ∧
      (scoreFrame 5 none).Conforms scores.schema ∧ ∃ compiled, tree.compile scores = .ok compiled ∧
      compiled.sql.eval bareDatabase (scoreFrame 5 none) = .num (-1) := by
  intro tree
  have he : tree.isElementary scores.schema = true := by decide +kernel
  have hexact : tree.foldsExactly = true := by decide +kernel
  have hf := scoreFrame_conforms 5 none
  have hok : (tree.compile scores).isOk = true := by decide +kernel
  cases h : tree.compile scores with
  | error e =>
    rw [h] at hok
    exact nomatch hok
  | ok compiled =>
    refine ⟨he, hexact, hf, compiled, rfl, ?_⟩
    rw [Tree.eval_compile bareDatabase bareDatabase_lawful (fun _ => rfl) scores tree compiled h he hexact
      (scoreFrame 5 none) hf (scoreRow 5 none) rfl]
    decide +kernel

/-- A tenth and two tenths are not three tenths in doubles, and null is not asked for if it stands to the
left of a constant. -/
theorem Tree.eval_compile_rounded :
    let tenths (n : Int) : Tree := .arith 0 .div (.constant 0 (.int n)) (.constant 0 (.int 10))
    let sum : Tree := .compare 0 .eq (.column 0 "valid")
      (.compare 0 .eq (.arith 0 .add (tenths 1) (tenths 2)) (tenths 3))
    let nullTest : Tree := .compare 0 .eq (.column 0 "valid")
      (.compare 0 .eq (.constant 0 .null) (.constant 0 (.int 1)))
    bareDatabase.Lawful ∧ (∀ x, bareDatabase.cast .float (.num x) = .num x) ∧
      (scoreFrame 5 (some true)).Conforms scores.schema ∧ ∀ tree ∈ [sum, nullTest],
        tree.isElementary scores.schema = true ∧ ∃ compiled, tree.compile scores = .ok compiled ∧
        compiled.sql.eval bareDatabase (scoreFrame 5 (some true)) ≠
          tree.eval scores.schema (scoreRow 5 (some true)) := by
  intro tenths sum nullTest
  have hdiffers (tree : Tree) (he : tree.isElementary scores.schema = true)
      (h : (match tree.compile scores with
        | .ok compiled => compiled.sql.eval bareDatabase (scoreFrame 5 (some true)) !=
            tree.eval scores.schema (scoreRow 5 (some true))
        | .error _ => false) = true) :
      tree.isElementary scores.schema = true ∧ ∃ compiled, tree.compile scores = .ok compiled ∧
        compiled.sql.eval bareDatabase (scoreFrame 5 (some true)) ≠
          tree.eval scores.schema (scoreRow 5 (some true)) := by
    cases hcompile : tree.compile scores with
    | error e =>
      rw [hcompile] at h
      exact nomatch h
    | ok compiled =>
      rw [hcompile] at h
      exact ⟨he, compiled, rfl, by simpa using h⟩
  refine ⟨bareDatabase_lawful, fun _ => rfl, scoreFrame_conforms 5 (some true), ?_⟩
  intro tree htree
  simp only [List.mem_cons, List.not_mem_nil, or_false] at htree
  rcases htree with rfl | rfl
  · exact hdiffers sum (by decide +kernel) (by decide +kernel)
  · exact hdiffers nullTest (by decide +kernel) (by decide +kernel)

end ShelfQuery.Expression
