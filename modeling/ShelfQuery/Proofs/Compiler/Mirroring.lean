import ShelfQuery.Engine.Evaluate
import ShelfQuery.Proofs.Calendar.DateText
import ShelfQuery.Proofs.Compiler.Dates
import ShelfQuery.Proofs.Compiler.LiteralOrder

set_option autoImplicit false

/-!
# Comparisons from both sides

A comparison and its mirror image differ in two cases only: equality of null with another constant asks for null only
if null is on the right, and of two dates of one day only the right one loses its time.
-/

namespace ShelfQuery.Sql.CompareOp

theorem mirror_mirror (op : CompareOp) : op.mirror.mirror = op := by cases op <;> rfl

theorem mirror_ne_like {op : CompareOp} (h : op ≠ .like) : op.mirror ≠ .like := by
  cases op <;> first | exact absurd rfl h | decide

end ShelfQuery.Sql.CompareOp

namespace ShelfQuery.Engine

open ShelfQuery.Sql ShelfQuery.Expression ShelfQuery.Rows

theorem Affinity.shared_comm (a b : Affinity) : a.shared b = b.shared a := by cases a <;> cases b <;> rfl

theorem compareCells_swap (a b : Cell) : compareCells b a = (compareCells a b).swap := by
  cases a with
  | null => cases b <;> rfl
  | int m =>
    cases b with
    | int n =>
      have hswap : compare n m = (compare m n).swap := Std.OrientedCmp.eq_swap
      exact hswap
    | _ => rfl
  | real x =>
    cases b with
    | int n => exact Ordering.swap_swap.symm
    | real y =>
      have hswap := compareFloats_swap x y
      simp only [compareCells, hswap]
      cases compareFloats x y <;> rfl
    | _ => rfl
  | text s =>
    cases b with
    | text t => exact compareTexts_swap s t
    | _ => rfl

theorem holds_mirror {op : CompareOp} (hop : op ≠ .like) (affinity : Affinity) (a b : Cell) :
    holds op.mirror affinity b a = holds op affinity a b := by
  unfold holds
  rw [Bool.or_comm, if_neg hop, if_neg (CompareOp.mirror_ne_like hop), compareCells_swap, holdsFor_mirror]

end ShelfQuery.Engine

namespace ShelfQuery.Sql

open ShelfQuery.Expression

variable (p : Primitives)

theorem Primitives.order_swap (a b : Value) : p.order b a = (p.order a b).swap := by
  cases a with
  | null => cases b <;> rfl
  | num x =>
    cases b with
    | num y =>
      have hswap : compare y x = (compare x y).swap := Std.OrientedCmp.eq_swap
      exact hswap
    | _ => rfl
  | text s =>
    cases b with
    | text t => exact compareTexts_swap s t
    | num y => exact Ordering.swap_swap.symm
    | null => rfl

theorem Primitives.holds_mirror {op : CompareOp} (hop : op ≠ .like) (a b : Value) :
    p.holds op.mirror b a = p.holds op a b := by
  unfold Primitives.holds
  rw [Bool.or_comm, if_neg hop, if_neg (CompareOp.mirror_ne_like hop), p.order_swap, holdsFor_mirror]

end ShelfQuery.Sql

namespace ShelfQuery.Expression

open ShelfQuery.Sql ShelfQuery.Schema ShelfQuery.Calendar

/-- An evaluation in which a comparison may be read from both sides, a comparison with null is unknown, and
dates and moments are compared as texts. -/
structure Compares {α : Type} (eval : Sql → α) (ofTruth : Option Bool → α) : Prop where
  injective : Function.Injective ofTruth
  mirror : ∀ {op : CompareOp} (l r : Sql), op ≠ .like → eval (.compare op.mirror r l) = eval (.compare op l r)
  null : ∀ (op : CompareOp) (r : Sql), eval (.compare op (.literal .null) r) = ofTruth none
  isNull : ∀ (x : Sql) (negated : Bool), ∃ b, eval (.isNull x negated) = ofTruth (some b)
  moment : ∀ {op : CompareOp} (m : DateTime) (d : Date), op ≠ .like →
    eval (.compare op (.literal (.datetime m)) (.literal (.date d))) = ofTruth (holdsFor op (compareTexts m.text d.text))

theorem compares_engine (tables : List Engine.StoredTable) (f : Engine.Focus) :
    Compares (Engine.eval tables f) Engine.ofTruth where
  injective t u h := by
    rcases t with _ | _ | _ <;> rcases u with _ | _ | _ <;> first | rfl | cases h
  mirror l r hop := by
    refine congrArg Engine.ofTruth (Eq.trans ?_ (Engine.holds_mirror hop _ _ _))
    exact congrArg (fun a => Engine.holds _ a _ _) (Engine.Affinity.shared_comm _ _)
  null op r := rfl
  isNull x negated := ⟨_, rfl⟩
  moment m d hop := congrArg Engine.ofTruth (if_neg hop)

theorem compares_eval (p : Primitives) (f : Frame) : Compares (Sql.eval p f) Value.ofTruth where
  injective t u h := by
    have htruth := congrArg p.truth h
    rwa [Primitives.truth_ofTruth, Primitives.truth_ofTruth] at htruth
  mirror l r hop := congrArg Value.ofTruth (p.holds_mirror hop _ _)
  null op r := rfl
  isNull x negated := ⟨_, rfl⟩
  moment m d hop := congrArg Value.ofTruth (if_neg hop)

theorem comparison_null {op : CompareOp} (hop : (op == .eq || op == .ne) = true) (x : Sql) :
    comparison op x (.literal .null) = .isNull x (op == .ne) := by
  unfold comparison
  rw [hop]
  rfl

theorem comparison_not_literal {op : CompareOp} {l r : Sql} (hr : r.isLiteral = false) :
    comparison op l r = .compare op l r := by
  rw [comparison, isNullLiteral_of_not_literal hr, Bool.false_and, if_neg Bool.false_ne_true, literal?_of_not_literal hr]
  cases l.literal? <;> rfl

theorem eq_null_of_isNullLiteral {a : Literal} (h : (Sql.literal a).isNullLiteral = true) : a = .null := by
  cases a <;> first | rfl | cases h

/-- Texts that begin with different words are in the order of the words, if no word begins another. -/
theorem compareTexts_append {s t : String} (hst : ¬ s.toList <+: t.toList) (hts : ¬ t.toList <+: s.toList)
    (u v : String) : compareTexts (s ++ u) (t ++ v) = compareTexts s t := by
  have hne : s ≠ t := fun heq => hst (heq ▸ List.prefix_rfl)
  have hne' : s ++ u ≠ t ++ v := by
    intro heq
    have hlists : s.toList ++ u.toList = t.toList ++ v.toList := by simpa using congrArg String.toList heq
    rcases List.prefix_or_prefix_of_prefix (List.prefix_append _ _) (hlists ▸ List.prefix_append _ _) with h | h
    · exact hts h
    · exact hst h
  rw [compareTexts, compareTexts, String.toList_append, String.toList_append, Text.before_append hst hts]
  simp [hne, hne']

theorem compareTexts_day (m : DateTime) : compareTexts m.text m.date.text = .gt := by
  have hne : m.text ≠ m.date.text := by
    intro heq
    have hlength := congrArg String.length heq
    have hblank : " ".length = 1 := by rfl
    simp only [DateTime.text, String.length_append, hblank] at hlength
    omega
  have hbefore : Text.before m.text.toList m.date.text.toList = false := by
    rw [DateTime.text, String.append_assoc, String.toList_append]
    exact Text.before_append_self _ _
  rw [compareTexts, hbefore]
  simp [hne]

theorem compareTexts_days {m m' : DateTime} (hday : m.date ≠ m'.date) :
    compareTexts m'.text m.date.text = (compareTexts m.text m'.date.text).swap := by
  have hdays {m m' : DateTime} (hday : m.date ≠ m'.date) :
      compareTexts m.text m'.date.text = compareTexts m.date.text m'.date.text := by
    have happend := compareTexts_append (Date.not_prefix hday) (Date.not_prefix hday.symm) (" " ++ m.time.text) ""
    rwa [String.append_empty, ← String.append_assoc] at happend
  rw [hdays hday, hdays hday.symm, compareTexts_swap]

def asksOneNull (op : Comparison) (l r : Sql) : Bool :=
  op.isEquality && l.isLiteral && r.isLiteral && l.isNullLiteral != r.isNullLiteral

section

variable {α : Type} {eval : Sql → α} {ofTruth : Option Bool → α} (h : Compares eval ofTruth)

include h

theorem Compares.literals_mirror {op : Comparison} {a b : Literal}
    (ha : ((Sql.literal a).isNullLiteral && op.isEquality) = false)
    (hb : ((Sql.literal b).isNullLiteral && op.isEquality) = false) :
    eval (comparison op.op.mirror (.literal b) (.literal a)) = eval (comparison op.op (.literal a) (.literal b)) := by
  rw [← op.isEquality_mirror] at ha
  rw [← op.isEquality_op] at hb
  have hmirror := foldCompare?_mirror op.op a b
  cases hfold : foldCompare? op.op a b with
  | some result => rw [comparison_folded hb hfold, comparison_folded ha (hmirror.trans hfold)]
  | none =>
    rw [comparison_kept hb hfold, comparison_kept ha (hmirror.trans hfold)]
    exact h.mirror _ _ op.op_ne_like

theorem Compares.null_ne {op : Comparison} {b : Literal} (hequality : op.isEquality = true)
    (hb : (Sql.literal b).isNullLiteral = false) :
    eval (comparison op.op (.literal b) (.literal .null)) ≠ eval (comparison op.op (.literal .null) (.literal b)) := by
  have hfold : foldCompare? op.op .null b = none := by cases b <;> rfl
  obtain ⟨result, hresult⟩ := h.isNull (.literal b) (op.op == .ne)
  rw [comparison_null (op.isEquality_op.trans hequality), comparison_kept (by simp [hb]) hfold, h.null, hresult]
  intro heq
  cases h.injective heq

theorem Compares.compareSql_mirror (op : Comparison) (l r : Sql) :
    eval (compareSql op.op.mirror r l) = eval (compareSql op.op l r) ↔ asksOneNull op l r = false := by
  rw [compareSql_eq, compareSql_eq, asksOneNull, CompareOp.mirror_mirror]
  cases hl : l.isLiteral with
  | false =>
    cases hr : r.isLiteral with
    | false =>
      simp only [Bool.false_and, Bool.and_false, Bool.false_eq_true, if_false]
      rw [comparison_not_literal hl, comparison_not_literal hr]
      simp [h.mirror l r op.op_ne_like]
    | true => simp
  | true =>
    cases hr : r.isLiteral with
    | false => simp
    | true =>
      obtain ⟨a, ha⟩ := isLiteral_eq_true hl
      obtain ⟨b, hb⟩ := isLiteral_eq_true hr
      rw [literal?_eq_some ha, literal?_eq_some hb]
      simp only [Bool.not_true, Bool.and_false, Bool.false_eq_true, if_false, Bool.and_true]
      cases hequality : op.isEquality with
      | false =>
        rw [h.literals_mirror (by simp [hequality]) (by simp [hequality])]
        simp
      | true =>
        cases hanull : (Sql.literal a).isNullLiteral with
        | false =>
          cases hbnull : (Sql.literal b).isNullLiteral with
          | false =>
            rw [h.literals_mirror (by simp [hanull]) (by simp [hbnull])]
            simp
          | true =>
            obtain rfl := eq_null_of_isNullLiteral hbnull
            rw [Comparison.mirror_op hequality]
            simpa using (h.null_ne hequality hanull).symm
        | true =>
          obtain rfl := eq_null_of_isNullLiteral hanull
          rw [Comparison.mirror_op hequality]
          cases hbnull : (Sql.literal b).isNullLiteral with
          | false => simpa using h.null_ne hequality hbnull
          | true =>
            obtain rfl := eq_null_of_isNullLiteral hbnull
            simp

/-- Moments of two days are compared with the other day alike; a moment comes after its own day. -/
theorem Compares.moments_mirror (op : Comparison) (m m' : DateTime) :
    eval (compareSql op.op.mirror (.literal (.datetime m')) (.literal (.date m.date))) =
        eval (compareSql op.op (.literal (.datetime m)) (.literal (.date m'.date))) ↔
      (!op.isEquality && m.date == m'.date) = false := by
  have hkept (op : CompareOp) (m : DateTime) (d : Date) :
      compareSql op (.literal (.datetime m)) (.literal (.date d)) =
        .compare op (.literal (.datetime m)) (.literal (.date d)) := rfl
  rw [hkept, hkept, h.moment _ _ (CompareOp.mirror_ne_like op.op_ne_like), h.moment _ _ op.op_ne_like,
    h.injective.eq_iff]
  by_cases hday : m.date = m'.date
  · have hlater := compareTexts_day m
    have hlater' := compareTexts_day m'
    rw [← hday] at hlater' ⊢
    rw [hlater, hlater']
    cases op <;> simp [Comparison.op, Comparison.isEquality, CompareOp.mirror, holdsFor]
  · rw [compareTexts_days hday, holdsFor_mirror]
    simp [hday]

end

section

variable {c : Context} {l r l' r' : Typed}

theorem ValueType.compatible_comm (a b : ValueType) : a.compatible b = b.compatible a := by
  cases a <;> cases b <;> rfl

theorem literal_of_namesMoment {x : Sql} (h : namesMoment x = true) : x.isLiteral = true ∧ x.isNullLiteral = false := by
  cases x with
  | literal v => cases v <;> first | exact ⟨rfl, rfl⟩ | cases h
  | _ => cases h

def BothMoments (l r : Typed) : Prop :=
  (l.type.isTemporal = true ∧ namesMoment r.sql = true) ∧ r.type.isTemporal = true ∧ namesMoment l.sql = true

theorem Paired.mirror (h : Paired c l r l' r') (hone : ¬ BothMoments l r) : Paired c r l r' l' := by
  cases h with
  | right htemporal hm =>
    exact .left (fun hleft => hone ⟨⟨htemporal, namesMoment_of_moment? hm⟩, hleft⟩) htemporal hm
  | left _ htemporal hm => exact .right htemporal hm
  | same hright hleft => exact .same hleft hright

theorem Paired.asksOneNull_eq (h : Paired c l r l' r') (op : Comparison) :
    asksOneNull op l'.sql r'.sql = asksOneNull op l.sql r.sql := by
  have hmoment (type : ValueType) {m : DateTime} {x : Sql} (hm : moment? c x = some m) :
      (momentLiteral type false m).sql.isLiteral = x.isLiteral ∧
        (momentLiteral type false m).sql.isNullLiteral = x.isNullLiteral := by
    obtain ⟨hliteral, hnull⟩ := literal_of_namesMoment (namesMoment_of_moment? hm)
    rw [hliteral, hnull, momentLiteral]
    split <;> exact ⟨rfl, rfl⟩
  cases h with
  | right _ hm =>
    obtain ⟨hliteral, hnull⟩ := hmoment l.type hm
    rw [asksOneNull, asksOneNull, hliteral, hnull]
  | left _ _ hm =>
    obtain ⟨hliteral, hnull⟩ := hmoment r.type hm
    rw [asksOneNull, asksOneNull, hliteral, hnull]
  | same => rfl

end

def Comparison.mirror : Comparison → Comparison
  | .eq => .eq
  | .ne => .ne
  | .lt => .gt
  | .le => .ge
  | .gt => .lt
  | .ge => .le

theorem Comparison.op_mirror (op : Comparison) : op.mirror.op = op.op.mirror := by cases op <;> rfl

def sameDay : Sql → Sql → Bool
  | .literal (.datetime m), .literal (.datetime m') => m.date == m'.date
  | _, _ => false

/-- Whether it matters on which side the operands of a comparison stand: both are constants, and either they
are temporal, of one day, and compared by order, or exactly one of them is null and they are compared by
equality. -/
def lopsided (op : Comparison) (l r : Typed) : Bool :=
  l.isLiteral && r.isLiteral &&
    if l.type.isTemporal && r.type.isTemporal then !op.isEquality && sameDay l.sql r.sql
    else op.isEquality && l.sql.isNullLiteral != r.sql.isNullLiteral

/-- A comparison and its mirror image have the same value, in whatever evaluation, unless the sides matter. -/
def Mirrors (op : Comparison) (l r : Typed) (sql mirrored : Sql) : Prop :=
  ∀ {α : Type} {eval : Sql → α} {ofTruth : Option Bool → α}, Compares eval ofTruth →
    (eval mirrored = eval sql ↔ lopsided op l r = false)

section

variable {c : Context} {scope : Scope} {left right : Tree} {l r l' r' : Typed} {op : Comparison}

theorem Compiles.mirror_moments {m m' : DateTime} (pos' : Nat)
    (hl : Compiles c scope left ⟨.literal (.datetime m), .date⟩)
    (hr : Compiles c scope right ⟨.literal (.datetime m'), .date⟩)
    (hpair : Paired c ⟨.literal (.datetime m), .date⟩ ⟨.literal (.datetime m'), .date⟩ l' r') :
    ∃ mirrored, Compiles c scope (.compare pos' op.mirror right left) ⟨mirrored, .bool⟩ ∧
      Mirrors op ⟨.literal (.datetime m), .date⟩ ⟨.literal (.datetime m'), .date⟩
        (compareSql op.op l'.sql r'.sql) mirrored := by
  have hmirrored : Paired c ⟨.literal (.datetime m'), .date⟩ ⟨.literal (.datetime m), .date⟩
      ⟨.literal (.datetime m'), .date⟩ (momentLiteral .date false m) := .right rfl rfl
  refine ⟨_, .compare hr hl hmirrored rfl, fun h => ?_⟩
  rw [op.op_mirror]
  cases hpair with
  | right _ hm =>
    cases hm
    exact h.moments_mirror op m m'
  | left hright => exact absurd ⟨rfl, rfl⟩ hright
  | same hright => exact absurd ⟨rfl, rfl⟩ hright

theorem lopsided_eq (hl : Compiles c scope left l) (hr : Compiles c scope right r)
    (hone : ¬ BothMoments l r) : lopsided op l r = asksOneNull op l.sql r.sql := by
  unfold lopsided asksOneNull Typed.isLiteral
  by_cases hliterals : l.sql.isLiteral = true ∧ r.sql.isLiteral = true
  · have hnot : ¬ (l.type.isTemporal && r.type.isTemporal) = true := by
      intro htemporal
      obtain ⟨hltemporal, hrtemporal⟩ := Bool.and_eq_true_iff.mp htemporal
      obtain ⟨m, rfl⟩ := hl.temporal_literal hltemporal hliterals.1
      obtain ⟨m', rfl⟩ := hr.temporal_literal hrtemporal hliterals.2
      exact hone ⟨⟨rfl, rfl⟩, rfl, rfl⟩
    rw [if_neg hnot, hliterals.1, hliterals.2]
    simp
  · have hnot : (l.sql.isLiteral && r.sql.isLiteral) = false := by simpa using hliterals
    rw [hnot, Bool.and_assoc op.isEquality, hnot]
    simp

theorem Compiles.mirror {pos : Nat} {t : Typed} (pos' : Nat) (h : Compiles c scope (.compare pos op left right) t) :
    ∃ mirrored, Compiles c scope (.compare pos' op.mirror right left) ⟨mirrored, .bool⟩ ∧
      Mirrors op (left.valueIn c scope) (right.valueIn c scope) t.sql mirrored := by
  cases h with
  | @compare _ _ _ _ _ l r l' r' hl hr hpair hcompatible =>
    rw [hl.valueIn_eq, hr.valueIn_eq]
    by_cases hboth : BothMoments l r
    · obtain ⟨⟨hltemporal, hrnames⟩, hrtemporal, hlnames⟩ := hboth
      obtain ⟨m, rfl⟩ := hl.temporal_literal hltemporal (literal_of_namesMoment hlnames).1
      obtain ⟨m', rfl⟩ := hr.temporal_literal hrtemporal (literal_of_namesMoment hrnames).1
      exact hl.mirror_moments pos' hr hpair
    · refine ⟨_, .compare hr hl (hpair.mirror hboth) (ValueType.compatible_comm _ _ ▸ hcompatible), fun h => ?_⟩
      rw [op.op_mirror, h.compareSql_mirror, hpair.asksOneNull_eq, lopsided_eq hl hr hboth]

end

/-- If a comparison compiles, so does the one with its sides exchanged. On a row of stored tables, and in any
database, the two have the same value exactly if the sides do not matter. -/
theorem Tree.compare_mirrored {c : Context} {pos : Nat} {op : Comparison} {left right : Tree} {compiled : Compiled}
    (h : (Tree.compare pos op left right).compile c = .ok compiled) (pos' : Nat) :
    ∃ mirrored, (Tree.compare pos' op.mirror right left).compile c = .ok mirrored ∧
      (∀ tables f, Engine.eval tables f mirrored.sql = Engine.eval tables f compiled.sql ↔
        lopsided op (left.valueIn c {}) (right.valueIn c {}) = false) ∧
      ∀ p f, mirrored.sql.eval p f = compiled.sql.eval p f ↔
        lopsided op (left.valueIn c {}) (right.valueIn c {}) = false := by
  obtain ⟨sql, hsql, hmirrors⟩ := (compiles_of_compile h).1.mirror pos'
  obtain ⟨mirrored, hmirrored, hmirroredSql, -⟩ := compile_of_compiles hsql
  refine ⟨mirrored, hmirrored, fun tables f => ?_, fun p f => ?_⟩
  · rw [hmirroredSql]
    exact hmirrors (compares_engine tables f)
  · rw [hmirroredSql]
    exact hmirrors (compares_eval p f)

/-- A number and a column may change sides, null and a number may not, nor may the day of today and itself. -/
theorem Tree.compare_mirrored_today :
    let c : Context := { scores with now := ⟨⟨2020, 1, 14, by decide⟩, ⟨33694, 0, by decide, by decide⟩⟩ }
    let one : Tree := .constant 0 (.int 1)
    let nothing : Tree := .constant 0 .null
    let today : Tree := .call 0 "date" [.constant 0 (.text "today")]
    (∃ a b, (Tree.compare 0 .le one (.column 0 "score")).compile c = .ok a ∧
      (Tree.compare 0 .ge (.column 0 "score") one).compile c = .ok b ∧
      ∀ tables f, Engine.eval tables f b.sql = Engine.eval tables f a.sql) ∧
    (∃ a b, (Tree.compare 0 .eq nothing one).compile c = .ok a ∧ (Tree.compare 0 .eq one nothing).compile c = .ok b ∧
      ∀ tables f, Engine.eval tables f b.sql ≠ Engine.eval tables f a.sql) ∧
    ∃ a b, (Tree.compare 0 .gt today today).compile c = .ok a ∧ (Tree.compare 0 .lt today today).compile c = .ok b ∧
      ∀ tables f, Engine.eval tables f b.sql ≠ Engine.eval tables f a.sql := by
  intro c one nothing today
  obtain ⟨a, ha⟩ : ∃ a, (Tree.compare 0 .le one (.column 0 "score")).compile c = .ok a := ⟨_, rfl⟩
  obtain ⟨a', ha'⟩ : ∃ a, (Tree.compare 0 .eq nothing one).compile c = .ok a := ⟨_, rfl⟩
  obtain ⟨a'', ha''⟩ : ∃ a, (Tree.compare 0 .gt today today).compile c = .ok a := ⟨_, rfl⟩
  have hsides : lopsided .le (one.valueIn c {}) ((Tree.column 0 "score").valueIn c {}) = false := by rfl
  have hsides' : lopsided .eq (nothing.valueIn c {}) (one.valueIn c {}) = true := by rfl
  have hsides'' : lopsided .gt (today.valueIn c {}) (today.valueIn c {}) = true := by rfl
  obtain ⟨b, hb, heval, -⟩ := Tree.compare_mirrored ha 0
  obtain ⟨b', hb', heval', -⟩ := Tree.compare_mirrored ha' 0
  obtain ⟨b'', hb'', heval'', -⟩ := Tree.compare_mirrored ha'' 0
  refine ⟨⟨a, b, ha, hb, fun tables f => (heval tables f).mpr hsides⟩, ⟨a', b', ha', hb', fun tables f heq => ?_⟩,
    ⟨a'', b'', ha'', hb'', fun tables f heq => ?_⟩⟩
  · cases ((heval' tables f).mp heq).symm.trans hsides'
  · cases ((heval'' tables f).mp heq).symm.trans hsides''

end ShelfQuery.Expression
