import ShelfQuery.Proofs.Compiler.Constant

set_option autoImplicit false

namespace ShelfQuery.Expression

open ShelfQuery.Sql ShelfQuery.Schema ShelfQuery.Calendar

variable {x : Sql} {l r type : ValueType} {op : Arith} {a b v : Literal} {tree : Tree} {t : Typed}

def Tree.isBareNull : Tree → Bool
  | .constant _ .null => true
  | .neg _ arg => arg.isBareNull
  | .arith _ .add left right => left.isBareNull && right.isBareNull
  | _ => false

/-- Joined to a condition that does not matter, a condition stays as it is. -/
def nullJoin (settles : Bool) (l r : Option Literal) (ln rn : Option Bool) : Option Bool :=
  if isConstantly (!settles) l then rn else if isConstantly (!settles) r then ln else none

/-- Arithmetic is folded if both operands are constants. -/
def nullArith (l r : Option Literal) (ln rn : Option Bool) : Option Bool :=
  if (ln == some false && (rn == some false || r.isSome)) || (rn == some false && l.isSome) then some false else none

/-- Whether an expression folds to null (`some false`), or to a negated null (`some true`), which is
null again once it is negated. -/
def Tree.nullSign? : Tree → Option Bool
  | .constant _ .null => some false
  | .neg _ arg => if arg.isBareNull then some false else none
  | .not _ arg => arg.nullSign?.map (!·)
  | .arith _ _ left right => nullArith left.constant? right.constant? left.nullSign? right.nullSign?
  | .and _ left right => nullJoin false left.constant? right.constant? left.nullSign? right.nullSign?
  | .or _ left right => nullJoin true left.constant? right.constant? left.nullSign? right.nullSign?
  | _ => none

def Tree.foldsToNull (tree : Tree) : Bool := tree.nullSign? == some false

def nullSign? : Sql → Option Bool
  | .literal .null => some false
  | .not (.literal .null) => some true
  | _ => none

variable {c : Context} {schema : Table} {scope : Scope}

theorem isNullLiteral_eq (x : Sql) : x.isNullLiteral = (nullSign? x == some false) := by
  cases x with
  | literal l => cases l <;> rfl
  | not y =>
    cases y with
    | literal l => cases l <;> rfl
    | _ => rfl
  | _ => rfl

theorem isNullLiteral_of_not_literal (h : x.isLiteral = false) : x.isNullLiteral = false := by
  cases x <;> first | rfl | exact nomatch h

theorem nullSign?_literal {l : Literal} (h : l ≠ .null) : nullSign? (.literal l) = none := by
  cases l <;> first | rfl | exact absurd rfl h

theorem nullSign?_not (h : x ≠ .literal .null) : nullSign? (.not x) = none := by
  cases x with
  | literal l => cases l <;> first | rfl | exact absurd rfl h
  | _ => rfl

theorem bool_le_of_not {k : ValueClass} (h : Sql.WellTyped schema k (.not x)) : ValueClass.bool.Le k := by
  generalize hx : Sql.not x = y at h
  induction h with
  | weaken hle _ ih => exact (ih hx).trans hle
  | not => exact .refl
  | _ => exact nomatch hx

theorem nullSign?_of_class {k : ValueClass} (h : Sql.WellTyped schema k x) (hk : ¬ ValueClass.bool.Le k)
    (hnull : x.isNullLiteral = false) : nullSign? x = none := by
  cases x with
  | literal l => cases l <;> first | rfl | exact nomatch hnull
  | not y => exact absurd (bool_le_of_not h) hk
  | _ => rfl

theorem nullSign?_eq_none (h : x ≠ .literal .null) (hnot : x.isNegatable = false) : nullSign? x = none := by
  cases x with
  | literal l => exact nullSign?_literal (fun hl => h (hl ▸ rfl))
  | not => exact nomatch hnot
  | _ => rfl

theorem negate_nullSign? (h : Sql.WellTyped schema .bool x) : nullSign? x.negate = (nullSign? x).map (!·) := by
  cases hx : x.isNegatable with
  | false =>
    rw [Sql.WellTyped.negate_eq_not hx]
    by_cases hnull : x = .literal .null
    · rw [hnull]
      rfl
    · rw [nullSign?_not hnull, nullSign?_eq_none hnull hx]
      rfl
  | true =>
    cases x with
    | not y =>
      have hy := h.not_inv.2
      by_cases hnull : y = .literal .null
      · rw [hnull]
        rfl
      · rw [nullSign?_not hnull]
        exact nullSign?_eq_none hnull hy
    | compare op l r =>
      obtain ⟨inverse, hop⟩ := Option.isSome_iff_exists.mp hx
      simp only [Sql.negate, hop]
      rfl
    | isNull | inList => rfl
    | literal l =>
      cases l with
      | bool b => rfl
      | _ => cases hx
    | _ => cases hx

theorem comparison_nullSign? (op : CompareOp) (l r : Sql) : nullSign? (comparison op l r) = none := by
  unfold comparison
  split
  · rfl
  · split
    · split <;> rfl
    · rfl

theorem compareSql_nullSign? (op : CompareOp) (l r : Sql) : nullSign? (compareSql op l r) = none := by
  rw [compareSql_eq]
  split <;> exact comparison_nullSign? ..

theorem combine_nullSign? (settles : Bool) {x y : Sql} (hx : Sql.WellTyped schema .bool x)
    (hy : Sql.WellTyped schema .bool y) :
    nullSign? (Sql.combine settles [x, y]) = nullJoin settles (plain? x) (plain? y) (nullSign? x) (nullSign? y) := by
  have hjoined := joinedPair_combine settles hx hy
  generalize Sql.combine settles [x, y] = z at hjoined
  unfold nullJoin
  cases hjoined with
  | settled h =>
    rcases h with h | h
    · rw [isConstantly_plain? h, if_neg (by cases settles <;> exact Bool.false_ne_true)]
      split <;> rfl
    · rw [isConstantly_plain? h]
      cases settles <;> split <;> rfl
  | right h => rw [if_pos h]
  | left hx' hy' => rw [hx', hy']; rfl
  | both hxnone hynone =>
    rw [hxnone, hynone]
    cases settles <;> rfl

theorem foldArith_null (h : foldArith op a b = .ok v) (hnull : a = .null ∨ b = .null) : v = .null := by
  rcases hnull with rfl | rfl
  · cases op <;> cases h <;> rfl
  · cases op <;> cases a <;> cases h <;> rfl

theorem nullArith_of_not_literal {l r : Sql} (h : (l.isLiteral && r.isLiteral) = false) :
    nullArith (plain? l) (plain? r) (nullSign? l) (nullSign? r) = none := by
  unfold nullArith
  rw [← isNullLiteral_eq, ← isNullLiteral_eq]
  rcases Bool.and_eq_false_iff.mp h with h | h
  · rw [isNullLiteral_of_not_literal h, plain?_of_not_literal h]
    simp
  · rw [isNullLiteral_of_not_literal h, plain?_of_not_literal h]
    simp

theorem nullArith_literals (hfold : foldArith op a b = .ok v)
    (htype : Operands op l r type) (ha : a.valueClass.Le l.valueClass) (hb : b.valueClass.Le r.valueClass)
    (ha' : a = .null ∨ plainLiteral? a = some a) (hb' : b = .null ∨ plainLiteral? b = some b) :
    nullArith (plain? (.literal a)) (plain? (.literal b)) (nullSign? (.literal a)) (nullSign? (.literal b)) =
      nullSign? (.literal v) := by
  have hsign {l : Literal} (hl : plainLiteral? l = some l) : nullSign? (.literal l) = none :=
    nullSign?_literal (by rintro rfl; exact nomatch hl)
  rw [plain?_literal, plain?_literal]
  rcases ha' with rfl | ha'
  · rw [foldArith_null hfold (.inl rfl)]
    rcases hb' with rfl | hb'
    · rfl
    · rw [hb']
      simp [nullArith, nullSign?]
  · rw [ha', hsign ha']
    rcases hb' with rfl | hb'
    · rw [foldArith_null hfold (.inr rfl)]
      rfl
    · rw [hb', hsign hb', hsign ((folded_of_foldArith hfold).plain htype ha hb ha' hb')]
      rfl

theorem eq_null_of_arithType? (h : arithType? op l r = some .null) : op = .add ∧ l = .null ∧ r = .null := by
  unfold arithType? at h
  split at h <;> first | exact ⟨rfl, rfl, rfl⟩ | exact nomatch h

theorem eq_null_of_class {l : Literal} (h : l.valueClass.Le .null) : l = .null := by
  cases l <;> first | rfl | exact nomatch h

theorem Operands.not_condition (h : Operands op l r type) : ¬ ValueClass.bool.Le type.valueClass := by
  cases h <;> exact nofun

theorem Operands.texts_inv (h : Operands op l r .str) : op = .add ∧ l.valueClass.Le .text := by
  cases h with
  | texts hl _ => exact ⟨rfl, hl⟩

theorem Folded.text_or_null (h : Folded .add a b v) (ha : a.valueClass.Le .text) : v = .null ∨ ∃ s, v = .text s := by
  cases h with
  | null => exact .inl rfl
  | text x y => exact .inr ⟨x ++ y, rfl⟩
  | number => exact .inl (foldNumbers_of_text ha)

theorem Compiles.text_literal {l : Literal} (h : Compiles c scope tree t)
    (htype : t.type = .str) (hl : t.sql = .literal l) : l = .null ∨ ∃ s, l = .text s := by
  cases h with
  | constant =>
    rename_i value _
    cases value with
    | text s =>
      cases hl
      exact .inr ⟨s, rfl⟩
    | _ => cases htype
  | negNull _ _ hnull => cases hnull.symm.trans htype
  | @arithFold _ _ op _ _ lt rt type a b v hleft hright hop ha hb hfold =>
    cases hl
    have hoperands : Operands op lt.type rt.type .str := htype ▸ operands_of_arithType? hop
    obtain ⟨rfl, htext⟩ := hoperands.texts_inv
    have hwell := hleft.wellTyped
    rw [Typed.WellTyped, ha] at hwell
    exact (folded_of_foldArith hfold).text_or_null (hwell.literal_class.trans htext)
  | arith _ _ _ hliteral hsql =>
    have hnot := arithSql_not_literal hliteral hsql
    cases hl
    cases hnot
  | @aggregate _ _ _ aggregate _ t =>
    have hnot : (aggregate.apply t).sql.isLiteral = false := by cases aggregate <;> rfl
    rw [hl] at hnot
    cases hnot
  | dateOfDate _ _ hdate => cases hdate.symm.trans htype
  | column | columnTrunc | cond | coalesce | substr | string | total => cases hl
  | _ => cases htype

theorem Compiles.isBareNull_eq (h : Compiles c scope tree t) :
    tree.isBareNull = (t.type == .null && t.sql.isNullLiteral) := by
  induction h with
  | constant =>
    rename_i value _
    cases value <;> rfl
  | @negLiteral _ _ _ _ l _ _ hl hnumber ih =>
    have hnull : Sql.isNullLiteral (.literal l) = false := by
      cases l <;> first | rfl | exact nomatch hnumber
    rw [Tree.isBareNull, ih, hl, hnull, Bool.and_false]
    rfl
  | neg _ _ htype ih =>
    rw [Tree.isBareNull, ih, htype]
    rfl
  | negNull _ _ _ ih => exact ih
  | @arithFold _ _ op _ _ l r type a b v hleft hright htype hl hr hfold ihl ihr =>
    by_cases hnull : type = .null
    · obtain ⟨rfl, hlnull, hrnull⟩ := eq_null_of_arithType? (hnull ▸ htype)
      have hlwell := hleft.wellTyped
      have hrwell := hright.wellTyped
      rw [Typed.WellTyped, hlnull, hl] at hlwell
      rw [Typed.WellTyped, hrnull, hr] at hrwell
      have ha : a = .null := eq_null_of_class hlwell.literal_class
      have hb : b = .null := eq_null_of_class hrwell.literal_class
      rw [Tree.isBareNull, ihl, ihr, hl, hr, hlnull, hrnull, foldArith_null hfold (.inl ha), ha, hb, hnull]
      rfl
    · rw [beq_eq_false_iff_ne.mpr hnull, Bool.false_and]
      cases op with
      | add =>
        rw [Tree.isBareNull, ihl, ihr]
        refine Bool.eq_false_iff.mpr fun htypes => ?_
        simp only [Bool.and_eq_true, beq_iff_eq] at htypes
        rw [htypes.1.1, htypes.2.1] at htype
        exact hnull (Option.some.inj htype).symm
      | sub | mul | div => rfl
  | @arith _ _ op _ _ _ _ _ _ _ _ _ hliteral hsql ihl ihr =>
    have hnull : Sql.isNullLiteral _ = false := isNullLiteral_of_not_literal (arithSql_not_literal hliteral hsql)
    rw [hnull, Bool.and_false]
    cases op with
    | add =>
      rw [Tree.isBareNull, ihl, ihr]
      simp only [Bool.and_eq_false_iff] at hliteral
      rcases hliteral with h | h
      · rw [isNullLiteral_of_not_literal h, Bool.and_false, Bool.false_and]
      · rw [isNullLiteral_of_not_literal h, Bool.and_false, Bool.and_false]
    | sub | mul | div => rfl
  | aggregate =>
    rename_i aggregate _ _ _ _ _ _ _ _
    cases aggregate <;> simp [Tree.isBareNull, Aggregate.apply, Sql.isNullLiteral]
  | dateOfDate _ _ htype _ =>
    rw [htype]
    rfl
  | _ => simp [Tree.isBareNull, Sql.isNullLiteral]

theorem Compiles.nullSign?_of_temporal (h : Compiles c scope tree t)
    (htype : t.type.isTemporal = true) : nullSign? t.sql = none := by
  cases hliteral : t.sql.isLiteral with
  | true =>
    obtain ⟨m, rfl⟩ := h.temporal_literal htype hliteral
    rfl
  | false =>
    have hwell := h.wellTyped
    rw [Typed.WellTyped, valueClass_of_temporal htype] at hwell
    refine nullSign?_of_class hwell ?_ (isNullLiteral_of_not_literal hliteral)
    intro hle
    cases hle

theorem Compiles.literal_cases {l : Literal} (h : Compiles c scope tree t)
    (htype : t.type.isTemporal = false) (hl : t.sql = .literal l) : l = .null ∨ plainLiteral? l = some l := by
  have hwell := h.wellTyped
  have hbroken := h.not_broken
  rw [Typed.WellTyped, hl] at hwell
  have hclass := hwell.literal_class
  by_cases hstr : t.type = .str
  · rcases h.text_literal hstr hl with rfl | ⟨s, rfl⟩
    · exact .inl rfl
    · exact .inr rfl
  · generalize t.type = type at *
    cases l with
    | null => exact .inl rfl
    | bool | int | float | text => exact .inr rfl
    | date | datetime =>
      cases type with
      | date | datetime => cases htype
      | unknown | broken => cases hbroken
      | str => exact absurd rfl hstr
      | null | bool | num => cases hclass

theorem arithType?_not_temporal (h : arithType? op l r = some type) :
    l.isTemporal = false ∧ r.isTemporal = false := by
  unfold arithType? at h
  split at h <;> first | exact ⟨rfl, rfl⟩ | exact nomatch h

theorem Compiles.nullSign?_eq (h : Compiles c scope tree t) : tree.nullSign? = nullSign? t.sql := by
  induction h with
  | constant =>
    rename_i value _
    cases value <;> rfl
  | @negLiteral _ _ arg t l _ harg hl hnumber ih =>
    have hbare : arg.isBareNull = false := by
      rw [harg.isBareNull_eq, hl]
      cases l <;> first | exact Bool.and_false _ | cases hnumber
    have hnegated : negateLiteral l ≠ .null := by
      cases l with
      | int n =>
        simp only [negateLiteral, wordOr]
        split
        · intro h
          cases h
        · intro h
          cases h
      | float =>
        intro h
        cases h
      | _ => cases hnumber
    rw [Tree.nullSign?, hbare, nullSign?_literal hnegated]
    rfl
  | @neg _ _ arg t harg _ htype _ =>
    have hbare : arg.isBareNull = false := by
      rw [harg.isBareNull_eq, htype]
      rfl
    rw [Tree.nullSign?, hbare]
    rfl
  | @negNull _ _ arg t harg _ htype ih =>
    have hwell := harg.wellTyped
    rw [Typed.WellTyped, htype] at hwell
    have hnull : (ValueType.null == ValueType.null && t.sql.isNullLiteral) = t.sql.isNullLiteral := Bool.true_and _
    rw [Tree.nullSign?, harg.isBareNull_eq, htype, hnull]
    cases hliteral : t.sql.isNullLiteral with
    | true =>
      rw [isNullLiteral_eq, beq_iff_eq] at hliteral
      exact hliteral.symm
    | false => exact (nullSign?_of_class hwell (fun hle => by cases hle) hliteral).symm
  | not harg htype ih =>
    have hwell := harg.wellTyped
    rw [Typed.WellTyped, htype] at hwell
    rw [Tree.nullSign?, ih, negate_nullSign? hwell]
  | arithFold hleft hright htype hl hr hfold ihl ihr =>
    rw [Tree.nullSign?, ihl, ihr, hleft.constant?_eq, hright.constant?_eq, hl, hr]
    obtain ⟨hltype, hrtype⟩ := arithType?_not_temporal htype
    have hlwell := hleft.wellTyped
    have hrwell := hright.wellTyped
    rw [Typed.WellTyped, hl] at hlwell
    rw [Typed.WellTyped, hr] at hrwell
    exact nullArith_literals hfold (operands_of_arithType? htype) hlwell.literal_class hrwell.literal_class
      (hleft.literal_cases hltype hl) (hright.literal_cases hrtype hr)
  | arith hleft hright htype hliteral hsql ihl ihr =>
    have hoperands := operands_of_arithType? htype
    have hwell := arithSql_wellTyped hoperands hleft.wellTyped hright.wellTyped hsql
    have hnull := isNullLiteral_of_not_literal (arithSql_not_literal hliteral hsql)
    rw [Tree.nullSign?, ihl, ihr, hleft.constant?_eq, hright.constant?_eq, nullArith_of_not_literal hliteral]
    exact (nullSign?_of_class hwell hoperands.not_condition hnull).symm
  | compare => exact (compareSql_nullSign? _ _ _).symm
  | and hleft hright hl hr ihl ihr =>
    rw [Tree.nullSign?, ihl, ihr, hleft.constant?_eq, hright.constant?_eq, Sql.allOf_eq]
    exact (combine_nullSign? false (hleft.wellTyped.weaken (valueClass_of_condition hl))
      (hright.wellTyped.weaken (valueClass_of_condition hr))).symm
  | or hleft hright hl hr ihl ihr =>
    rw [Tree.nullSign?, ihl, ihr, hleft.constant?_eq, hright.constant?_eq, Sql.anyOf_eq]
    exact (combine_nullSign? true (hleft.wellTyped.weaken (valueClass_of_condition hl))
      (hright.wellTyped.weaken (valueClass_of_condition hr))).symm
  | @like _ _ _ _ negated | @ilike _ _ _ _ negated => cases negated <;> rfl
  | aggregate =>
    rename_i aggregate _ _ _ _ _ _ _ _
    cases aggregate <;> rfl
  | dateOfDate _ harg htype _ => rw [harg.nullSign?_of_temporal (by rw [htype]; rfl)]; rfl
  | _ => rfl

end ShelfQuery.Expression
