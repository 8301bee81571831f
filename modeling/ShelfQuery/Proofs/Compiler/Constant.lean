import ShelfQuery.Proofs.Compiler.Typing

set_option autoImplicit false

/-!
# Constant expressions

`Tree.constant?` is the truth value, number or text that an expression is known to have whatever the row. A tree is
compiled to a literal of these kinds exactly if it has one.
-/

namespace ShelfQuery.Expression

open ShelfQuery.Sql ShelfQuery.Schema ShelfQuery.Calendar

variable {sql x : Sql} {l v a b : Literal} {op : Arith}

def plainLiteral? : Literal → Option Literal
  | .bool b => some (.bool b)
  | .int n => some (.int n)
  | .float x => some (.float x)
  | .text s => some (.text s)
  | _ => none

def plain? (sql : Sql) : Option Literal := sql.literal?.bind plainLiteral?

def isConstantly (b : Bool) : Option Literal → Bool
  | some (.bool b') => b == b'
  | _ => false

def constantArith (op : Arith) (l r : Option Literal) : Option Literal :=
  l.bind fun a => r.bind fun b => (foldArith op a b).toOption

def constantCompare (op : CompareOp) (l r : Option Literal) : Option Literal :=
  l.bind fun a => r.bind fun b => (foldCompare? op a b).map .bool

/-- AND, which false settles, or OR, which true settles. -/
def constantJoin (settles : Bool) (l r : Option Literal) : Option Literal :=
  if isConstantly settles l || isConstantly settles r then some (.bool settles)
  else if isConstantly (!settles) l && isConstantly (!settles) r then some (.bool (!settles))
  else none

/-- What an expression is known to be without a row. One operand may settle AND and OR. -/
def Tree.constant? : Tree → Option Literal
  | .constant _ value => plainLiteral? value.literal
  | .neg _ arg => (arg.constant?).bind fun l => l.number?.map fun _ => negateLiteral l
  | .not _ arg =>
    match arg.constant? with
    | some (.bool b) => some (.bool (!b))
    | _ => none
  | .arith _ op left right => constantArith op left.constant? right.constant?
  | .compare _ op left right => constantCompare op.op left.constant? right.constant?
  | .and _ left right => constantJoin false left.constant? right.constant?
  | .or _ left right => constantJoin true left.constant? right.constant?
  | _ => none

variable {c : Context} {schema : Table} {scope : Scope}

theorem plain?_literal (l : Literal) : plain? (.literal l) = plainLiteral? l := rfl

theorem plain?_of_not_literal (h : sql.isLiteral = false) : plain? sql = none := by
  cases sql <;> first | rfl | exact nomatch h

theorem plainLiteral?_eq_some (h : plainLiteral? l = some v) : l = v := by
  cases l <;> simp_all [plainLiteral?]

theorem plain?_eq_some (h : plain? sql = some v) : sql = .literal v := by
  obtain ⟨l, hl, hv⟩ := Option.bind_eq_some_iff.mp h
  cases sql with
  | literal l' =>
    cases hl
    rw [plainLiteral?_eq_some hv]
  | _ => exact nomatch hl

theorem plainLiteral?_of_number {x : Float} (h : l.number? = some x) : plainLiteral? l = some l := by
  cases l <;> first | rfl | exact nomatch h

theorem plain?_of_bool (h : Sql.WellTyped schema .bool sql) : plain? sql = none ∨ ∃ b, sql = .literal (.bool b) := by
  cases sql with
  | literal l =>
    rcases h.literal_bool with rfl | ⟨b, rfl⟩
    · exact .inl rfl
    · exact .inr ⟨b, rfl⟩
  | _ => exact .inl rfl

theorem plain?_of_null (h : Sql.WellTyped schema .null sql) : plain? sql = none := by
  cases sql with
  | literal l =>
    have hclass := h.literal_class
    cases l <;> first | rfl | exact nomatch hclass
  | _ => rfl

theorem negate_plain? (h : Sql.WellTyped schema .bool sql) : plain? sql.negate = match plain? sql with
      | some (.bool b) => some (.bool (!b))
      | _ => none := by
  rcases plain?_of_bool h with hnone | ⟨b, rfl⟩
  · rw [hnone]
    cases hx : sql.isNegatable with
    | false =>
      rw [Sql.WellTyped.negate_eq_not hx]
      rfl
    | true =>
      cases sql with
      | not y =>
        obtain ⟨hbool, hy⟩ := h.not_inv
        rcases plain?_of_bool hbool with hplain | ⟨b, rfl⟩
        · exact hplain
        · cases hy
      | compare op l r =>
        obtain ⟨inverse, hop⟩ := Option.isSome_iff_exists.mp hx
        simp only [Sql.negate, hop]
        rfl
      | isNull | inList => rfl
      | literal l =>
        cases l with
        | bool b => simp [plain?, Sql.literal?, plainLiteral?] at hnone
        | _ => cases hx
      | _ => cases hx
  · rfl

theorem foldCompare?_plain {op : CompareOp} {result : Bool} (h : foldCompare? op a b = some result) :
    plainLiteral? a = some a ∧ plainLiteral? b = some b := by
  cases a <;> cases b <;> first | exact ⟨rfl, rfl⟩ | exact nomatch h

theorem foldCompare?_eq_none {op : CompareOp} (h : plainLiteral? a = none ∨ plainLiteral? b = none) :
    foldCompare? op a b = none := by
  cases hfold : foldCompare? op a b with
  | none => rfl
  | some result =>
    obtain ⟨ha, hb⟩ := foldCompare?_plain hfold
    rcases h with h | h
    · exact nomatch ha.symm.trans h
    · exact nomatch hb.symm.trans h

theorem constantCompare_none (op : CompareOp) (l : Option Literal) : constantCompare op l none = none := by
  cases l <;> rfl

theorem constantCompare_plainLiteral? (op : CompareOp) (a b : Literal) :
    constantCompare op (plainLiteral? a) (plainLiteral? b) = (foldCompare? op a b).map .bool := by
  cases ha : plainLiteral? a with
  | none =>
    rw [foldCompare?_eq_none (.inl ha)]
    rfl
  | some a' =>
    cases hb : plainLiteral? b with
    | none =>
      rw [foldCompare?_eq_none (.inr hb)]
      rfl
    | some b' =>
      rw [plainLiteral?_eq_some ha, plainLiteral?_eq_some hb]
      rfl

theorem plain?_of_literal? (h : x.literal? = some l) : plain? x = plainLiteral? l := by
  rw [plain?, h, Option.bind_some]

theorem plain?_of_literal?_none (h : x.literal? = none) : plain? x = none := by
  rw [plain?, h, Option.bind_none]

theorem comparison_plain? (op : CompareOp) (l r : Sql) :
    plain? (comparison op l r) = constantCompare op (plain? l) (plain? r) := by
  unfold comparison
  split
  · next hnull =>
    have hr : plain? r = none := by
      cases r with
      | literal b => cases b <;> simp_all [Sql.isNullLiteral, plain?, Sql.literal?, plainLiteral?]
      | _ => rfl
    rw [hr, constantCompare_none]
    rfl
  · split
    · next a b ha hb =>
      rw [plain?_of_literal? ha, plain?_of_literal? hb, constantCompare_plainLiteral?]
      cases foldCompare? op a b <;> rfl
    · next hliteral =>
      cases hl : l.literal? with
      | none =>
        rw [plain?_of_literal?_none hl]
        rfl
      | some a =>
        cases hr : r.literal? with
        | none =>
          rw [plain?_of_literal?_none hr, constantCompare_none]
          rfl
        | some b => exact (hliteral a b hl hr).elim

theorem compareSql_plain? (op : CompareOp) (l r : Sql) :
    plain? (compareSql op l r) = constantCompare op (plain? l) (plain? r) := by
  rw [compareSql_eq]
  split
  · next hswap =>
    have hr : plain? r = none := plain?_of_not_literal (by simp at hswap; exact hswap.2)
    rw [comparison_plain?, hr, constantCompare_none]
    rfl
  · exact comparison_plain? op l r

theorem truth?_of_plain? (h : plain? x = none) : x.truth? = none := by
  cases ht : x.truth? with
  | none => rfl
  | some b =>
    rw [Sql.truth?_eq_some ht] at h
    exact nomatch h

theorem opened_ne_nil (hx : Sql.WellTyped schema .bool x) (settles : Bool) : 1 ≤ (x.opened settles).length := by
  rcases hx.opened_cases settles with h | h
  · simp [h]
  · omega

theorem isConstantly_of_none (b : Bool) {l : Option Literal} (h : l = none) : isConstantly b l = false := by
  rw [h]
  rfl

theorem isConstantly_plain? {b : Bool} (h : isConstantly b (plain? x) = true) : x = .literal (.bool b) := by
  cases hplain : plain? x with
  | none =>
    rw [hplain] at h
    exact nomatch h
  | some l =>
    rw [hplain] at h
    cases l with
    | bool b' =>
      have hb : b = b' := by simpa [isConstantly] using h
      rw [plain?_eq_some hplain, hb]
    | _ => exact nomatch h

theorem combine_of_opened {settles : Bool} {items : List Sql} (hx : Sql.WellTyped schema .bool x)
    (h : Sql.parts? settles items = some (x.opened settles)) : Sql.combine settles items = x := by
  rcases hx.opened_cases settles with hopened | hlen
  · rw [Sql.combine, h, hopened]
  · have hjoined : Sql.combine settles items = Sql.joined settles (x.opened settles) := by
      rw [Sql.combine, h]
      match x.opened settles, hlen with
      | _ :: _ :: _, _ => rfl
    rw [hjoined]
    cases x with
    | and items => cases settles <;> first | rfl | simp [Sql.opened] at hlen
    | or items => cases settles <;> first | rfl | simp [Sql.opened] at hlen
    | _ => simp [Sql.opened] at hlen

/-- What two conditions are joined to: one settles it, one does not matter, or both do. -/
inductive JoinedPair (settles : Bool) (x y : Sql) : Sql → Prop where
  | settled : isConstantly settles (plain? x) = true ∨ isConstantly settles (plain? y) = true →
      JoinedPair settles x y (.literal (.bool settles))
  | right : isConstantly (!settles) (plain? x) = true → JoinedPair settles x y y
  | left : isConstantly (!settles) (plain? x) = false → isConstantly (!settles) (plain? y) = true →
      JoinedPair settles x y x
  | both {xs : List Sql} : plain? x = none → plain? y = none → 2 ≤ xs.length →
      JoinedPair settles x y (Sql.joined settles xs)

theorem joinedPair_combine (settles : Bool) {x y : Sql} (hx : Sql.WellTyped schema .bool x)
    (hy : Sql.WellTyped schema .bool y) : JoinedPair settles x y (Sql.combine settles [x, y]) := by
  rcases plain?_of_bool hx with hxnone | ⟨b, rfl⟩
  · have hxtruth := truth?_of_plain? hxnone
    rcases plain?_of_bool hy with hynone | ⟨b, rfl⟩
    · have hsome : Sql.parts? settles [x, y] = some (x.opened settles ++ y.opened settles) := by
        rw [Sql.parts?_cons hxtruth, Sql.parts?_cons (truth?_of_plain? hynone)]
        simp [Sql.parts?]
      have hlen : 2 ≤ (x.opened settles ++ y.opened settles).length := by
        rw [List.length_append]
        exact Nat.add_le_add (opened_ne_nil hx settles) (opened_ne_nil hy settles)
      have hjoined : Sql.combine settles [x, y] = Sql.joined settles (x.opened settles ++ y.opened settles) := by
        rw [Sql.combine, hsome]
        generalize x.opened settles ++ y.opened settles = parts at hlen
        rcases parts with _ | ⟨_, _ | ⟨_, _⟩⟩
        · simp at hlen
        · simp at hlen
        · rfl
      rw [hjoined]
      exact .both hxnone hynone hlen
    · by_cases hb : b = settles
      · have hnone : Sql.parts? settles [x, .literal (.bool b)] = none := by
          rw [Sql.parts?_cons hxtruth, hb, Sql.parts?_cons_settles]
          rfl
        rw [Sql.combine, hnone]
        exact .settled (.inr (by simp [plain?_literal, plainLiteral?, isConstantly, hb]))
      · have hsome : Sql.parts? settles [x, .literal (.bool b)] = some (x.opened settles) := by
          rw [Sql.parts?_cons hxtruth, Sql.parts?_cons_neutral hb]
          simp [Sql.parts?]
        rw [combine_of_opened hx hsome]
        refine .left (isConstantly_of_none _ hxnone) ?_
        cases b <;> cases settles <;> first | rfl | exact absurd rfl hb
  · by_cases hb : b = settles
    · have hnone : Sql.parts? settles [.literal (.bool b), y] = none := by
        rw [hb, Sql.parts?_cons_settles]
      rw [Sql.combine, hnone]
      exact .settled (.inl (by simp [plain?_literal, plainLiteral?, isConstantly, hb]))
    · have hneutral : isConstantly (!settles) (plain? (.literal (.bool b))) = true := by
        cases b <;> cases settles <;> first | rfl | exact absurd rfl hb
      have hcombine : Sql.combine settles [.literal (.bool b), y] = y := by
        rcases plain?_of_bool hy with hynone | ⟨b', rfl⟩
        · refine combine_of_opened hy ?_
          rw [Sql.parts?_cons_neutral hb, Sql.parts?_cons (truth?_of_plain? hynone)]
          simp [Sql.parts?]
        · cases b <;> cases b' <;> cases settles <;> first | rfl | exact absurd rfl hb
      rw [hcombine]
      exact .right hneutral

theorem combine_plain? (settles : Bool) {x y : Sql} (hx : Sql.WellTyped schema .bool x)
    (hy : Sql.WellTyped schema .bool y) :
    plain? (Sql.combine settles [x, y]) = constantJoin settles (plain? x) (plain? y) := by
  have hjoined := joinedPair_combine settles hx hy
  generalize Sql.combine settles [x, y] = z at hjoined
  cases hjoined with
  | settled h =>
    rw [constantJoin, if_pos (by simpa using h)]
    rfl
  | right h =>
    rw [isConstantly_plain? h]
    rcases plain?_of_bool hy with hynone | ⟨b, rfl⟩
    · rw [hynone]
      cases settles <;> rfl
    · cases b <;> cases settles <;> rfl
  | left _ h =>
    rw [isConstantly_plain? h]
    rcases plain?_of_bool hx with hxnone | ⟨b, rfl⟩
    · rw [hxnone]
      cases settles <;> rfl
    · cases b <;> cases settles <;> rfl
  | both hxnone hynone =>
    rw [hxnone, hynone]
    cases settles <;> rfl

/-- The only constants among dates and datetimes are the moments that `date` reads from texts. -/
theorem Compiles.temporal_literal {tree : Tree} {t : Typed} (h : Compiles c scope tree t)
    (htype : t.type.isTemporal = true) (hliteral : t.sql.isLiteral = true) :
    ∃ m, t = ⟨.literal (.datetime m), .date⟩ := by
  induction h with
  | @constant _ _ value => cases value <;> cases htype
  | negNull _ _ hnull => cases hnull ▸ htype
  | arithFold _ _ hop | arith _ _ hop => cases (operands_of_arithType? hop).not_temporal.symm.trans htype
  | aggregate =>
    rename_i aggregate _ _ _ _ _ _ _ _
    cases aggregate <;> cases hliteral
  | dateOfText => exact ⟨_, rfl⟩
  | dateOfDate _ _ _ ih => exact ih htype hliteral
  | column | columnTrunc | cond | coalesce | trunc | dateOfDatetime | total => cases hliteral
  | _ => cases htype

theorem Compiles.plain?_of_temporal {tree : Tree} {t : Typed} (h : Compiles c scope tree t)
    (htype : t.type.isTemporal = true) : plain? t.sql = none := by
  cases hliteral : t.sql.isLiteral with
  | true =>
    obtain ⟨m, rfl⟩ := h.temporal_literal htype hliteral
    rfl
  | false => exact plain?_of_not_literal hliteral

theorem constantArith_none (op : Arith) {l r : Option Literal} (h : l = none ∨ r = none) :
    constantArith op l r = none := by
  rcases h with rfl | rfl
  · rfl
  · cases l <;> rfl

theorem foldNumbers_plain {x y : Float} (ha : a.number? = some x)
    (hb : b.number? = some y) : plainLiteral? (foldNumbers op a b) = some (foldNumbers op a b) := by
  simp only [foldNumbers, ha, hb]
  split
  · split
    · unfold wordOr
      split <;> rfl
    · rfl
  · rfl

theorem foldNumbers_not_plain (h : a.number? = none ∨ b.number? = none) : foldNumbers op a b = .null := by
  rcases h with h | h
  · simp [foldNumbers, h]
  · cases ha : a.number? <;> simp [foldNumbers, ha, h]

theorem number?_of_not_plain (h : plainLiteral? l = none) : l.number? = none := by
  cases l <;> first | rfl | exact nomatch h

theorem number?_of_class (h : l.valueClass.Le .num) (hplain : plainLiteral? l = some v) :
    ∃ x, l.number? = some x := by
  cases l with
  | int | float => exact ⟨_, rfl⟩
  | bool | text => exact nomatch h
  | _ => exact nomatch hplain

theorem text_of_class (h : l.valueClass.Le .text) (hplain : plainLiteral? l = some v) : ∃ s, l = .text s := by
  cases l with
  | text => exact ⟨_, rfl⟩
  | bool | int | float => exact nomatch h
  | _ => exact nomatch hplain

theorem Folded.not_plain (h : Folded op a b v)
    (hplain : plainLiteral? a = none ∨ plainLiteral? b = none) : plainLiteral? v = none := by
  cases h with
  | null => rfl
  | text => rcases hplain with h | h <;> exact nomatch h
  | one _ _ hone _ =>
    rcases hplain with h | h
    · exact h
    · simp [isOne, number?_of_not_plain h] at hone
  | number =>
    rw [foldNumbers_not_plain (hplain.imp number?_of_not_plain number?_of_not_plain)]
    rfl

theorem Folded.plain {a b v a' b' : Literal} {l r type : ValueType} (h : Folded op a b v)
    (htype : Operands op l r type) (ha : a.valueClass.Le l.valueClass) (hb : b.valueClass.Le r.valueClass)
    (hplain : plainLiteral? a = some a') (hplain' : plainLiteral? b = some b') : plainLiteral? v = some v := by
  cases htype with
  | numbers hl hr =>
    obtain ⟨x, hx⟩ := number?_of_class (ha.trans hl) hplain
    obtain ⟨y, hy⟩ := number?_of_class (hb.trans hr) hplain'
    cases h with
    | null hnull =>
      rcases hnull with rfl | rfl
      · exact nomatch hx
      · exact nomatch hy
    | text => rfl
    | one => exact plainLiteral?_of_number hx
    | number => exact foldNumbers_plain hx hy
  | texts hl hr =>
    obtain ⟨s, rfl⟩ := text_of_class (ha.trans hl) hplain
    obtain ⟨s', rfl⟩ := text_of_class (hb.trans hr) hplain'
    cases h with
    | null hnull => rcases hnull with h | h <;> exact nomatch h
    | text => rfl
    | number _ _ htext => exact absurd rfl (htext s s' rfl rfl)
  | nulls =>
    cases a with
    | null => exact nomatch hplain
    | _ => exact nomatch ha

theorem constantArith_plain {l r type : ValueType} (hfold : foldArith op a b = .ok v)
    (htype : Operands op l r type) (ha : a.valueClass.Le l.valueClass) (hb : b.valueClass.Le r.valueClass) :
    constantArith op (plainLiteral? a) (plainLiteral? b) = plainLiteral? v := by
  have hfolded := folded_of_foldArith hfold
  cases hplain : plainLiteral? a with
  | none => rw [hfolded.not_plain (.inl hplain), constantArith_none op (.inl rfl)]
  | some a' =>
    cases hplain' : plainLiteral? b with
    | none => rw [hfolded.not_plain (.inr hplain'), constantArith_none op (.inr rfl)]
    | some b' =>
      rw [hfolded.plain htype ha hb hplain hplain', ← plainLiteral?_eq_some hplain, ← plainLiteral?_eq_some hplain',
        constantArith, Option.bind_some, Option.bind_some, hfold]
      rfl

/-- Only division by one can leave a literal, and then the dividend is one. -/
theorem arithSql_not_literal {type : ValueType} {l r sql : Sql}
    (hliteral : (l.isLiteral && r.isLiteral) = false) (h : arithSql op type l r = .ok sql) :
    sql.isLiteral = false := by
  cases op with
  | add | sub | mul =>
    cases h
    rfl
  | div =>
    simp only [arithSql, divide] at h
    split at h
    · split at h
      · exact nomatch h
      · split at h
        · cases h
          simpa [Sql.isLiteral, Sql.literal?] using hliteral
        · cases h
          rfl
    · cases h
      rfl

/-- An operand that is brought to the temporal type of the other does not make a constant. -/
theorem Paired.compare_plain? {op : CompareOp} {left right : Tree} {l r l' r' : Typed}
    (hl : Compiles c scope left l) (hr : Compiles c scope right r) (h : Paired c l r l' r') :
    constantCompare op (plain? l'.sql) (plain? r'.sql) = constantCompare op (plain? l.sql) (plain? r.sql) := by
  cases h with
  | right htemporal =>
    rw [hl.plain?_of_temporal htemporal]
    rfl
  | left _ htemporal => rw [hr.plain?_of_temporal htemporal, constantCompare_none, constantCompare_none]
  | same => rfl

theorem Compiles.constant?_eq {tree : Tree} {t : Typed} (h : Compiles c scope tree t) :
    tree.constant? = plain? t.sql := by
  induction h with
  | constant => rfl
  | @negLiteral _ _ _ _ l _ _ hl hnumber ih =>
    rw [Tree.constant?, ih, hl, plain?_literal, plainLiteral?_of_number hnumber, Option.bind_some, hnumber,
      plain?_literal]
    cases l with
    | int n =>
      simp only [Option.map_some, negateLiteral, wordOr]
      split <;> rfl
    | float => rfl
    | _ => exact nomatch hnumber
  | neg _ hnumber _ ih =>
    rw [Tree.constant?, ih]
    cases hplain : plain? (_ : Sql) with
    | none => rfl
    | some l => rw [Option.bind_some, hnumber l (plain?_eq_some hplain)]; rfl
  | negNull harg _ hnull ih =>
    have hwell := harg.wellTyped
    rw [Typed.WellTyped, hnull] at hwell
    rw [Tree.constant?, ih, plain?_of_null hwell]
    rfl
  | not harg htype ih =>
    have hwell := harg.wellTyped
    rw [Typed.WellTyped, htype] at hwell
    rw [Tree.constant?, ih, negate_plain? hwell]
  | arithFold hleft hright htype hl hr hfold ihl ihr =>
    have hwl := hleft.wellTyped
    have hwr := hright.wellTyped
    rw [Typed.WellTyped, hl] at hwl
    rw [Typed.WellTyped, hr] at hwr
    rw [Tree.constant?, ihl, ihr, hl, hr]
    exact constantArith_plain hfold (operands_of_arithType? htype) hwl.literal_class hwr.literal_class
  | arith _ _ _ hliteral hsql ihl ihr =>
    rw [Tree.constant?, ihl, ihr, plain?_of_not_literal (arithSql_not_literal hliteral hsql)]
    simp only [Bool.and_eq_false_iff] at hliteral
    exact constantArith_none _ (hliteral.imp plain?_of_not_literal plain?_of_not_literal)
  | compare hleft hright hpair _ ihl ihr =>
    rw [Tree.constant?, ihl, ihr, compareSql_plain?, hpair.compare_plain? hleft hright]
  | and hleft hright hl hr ihl ihr =>
    rw [Tree.constant?, ihl, ihr, Sql.allOf_eq]
    exact (combine_plain? false (hleft.wellTyped.weaken (valueClass_of_condition hl))
      (hright.wellTyped.weaken (valueClass_of_condition hr))).symm
  | or hleft hright hl hr ihl ihr =>
    rw [Tree.constant?, ihl, ihr, Sql.anyOf_eq]
    exact (combine_plain? true (hleft.wellTyped.weaken (valueClass_of_condition hl))
      (hright.wellTyped.weaken (valueClass_of_condition hr))).symm
  | @like _ _ _ _ negated | @ilike _ _ _ _ negated => cases negated <;> rfl
  | aggregate =>
    rename_i aggregate _ _ _ _ _ _ _ _
    cases aggregate <;> rfl
  | dateOfDate _ harg htype _ => rw [harg.plain?_of_temporal (by rw [htype]; rfl)]; rfl
  | _ => rfl

end ShelfQuery.Expression
