import ShelfQuery.Proofs.Sql.Reader.Operators

set_option autoImplicit false

/-!
# Written operands

`Written schema k n text e` collects how the text of an operand of class `k` that binds with strength `n` is read, and
after which operators it may stand without parentheses.
-/

namespace ShelfQuery.Sql

open ShelfQuery.Schema ShelfQuery.Text

/-- How tightly the text of an expression binds: a number may begin with a sign, and nothing binds
tighter than an operand. -/
def strength : Sql → Nat
  | .literal l => if l.number?.isSome then 9 else 10
  | x => min x.precedence 10

theorem le_strength {x : Sql} {n : Nat} (hn : n ≤ 9) (h : n ≤ x.precedence) : n ≤ x.strength := by
  unfold Sql.strength
  split
  · split <;> omega
  · omega

theorem strength_atomic {x : Sql} (h : atomic ≤ x.precedence) (hx : ∀ l, x = .literal l → l.number? = none) :
    x.strength = 10 := by
  unfold Sql.strength
  split
  · next l => simp [hx l rfl]
  · have hatomic : atomic = 100 := rfl
    omega

namespace Reader

variable {schema : Table}

def startsPlain (text : String) : Bool := text.toList.head?.any fun c => c != '-' && c != '>'

theorem startsPlain_append {a : String} (h : startsPlain a = true) (b : String) : startsPlain (a ++ b) = true := by
  unfold startsPlain at h ⊢
  rw [String.toList_append]
  cases ha : a.toList with
  | nil => simp [ha] at h
  | cons c rest => simpa [ha] using h

structure Written (schema : Table) (k : ValueClass) (n : Nat) (text : String) (e : Expr) : Prop where
  hasClass : e.HasClass schema k
  reads : ReadsAs schema n text e
  plain : 10 ≤ n → startsPlain text = true
  disjunct : 2 ≤ n → Continues schema .or .any text e
  conjunct : 3 ≤ n → Continues schema .and .any text e
  summand : 7 ≤ n → k.Le .num → Continues schema (.arith .add) .num text e
  factor : 8 ≤ n → k.Le .num → Continues schema (.arith .mul) .num text e
  runs : 7 ≤ n → k.Le .text → Runs schema text e
  run : 7 ≤ n → k.Le .text → ContinuesRun schema text e
  nullSummand : 7 ≤ n → k.Le .null → ContinuesSum schema text e

namespace Written

variable {k k' : ValueClass} {m n : Nat} {text a b : String} {d e : Expr}

theorem mono (h : Written schema k n text e) (hle : m ≤ n) : Written schema k m text e where
  hasClass := h.hasClass
  reads := h.reads.mono hle
  plain hm := h.plain (by omega)
  disjunct hm := h.disjunct (by omega)
  conjunct hm := h.conjunct (by omega)
  summand hm := h.summand (by omega)
  factor hm := h.factor (by omega)
  runs hm := h.runs (by omega)
  run hm := h.run (by omega)
  nullSummand hm := h.nullSummand (by omega)

theorem weaken (h : Written schema k n text e) (hle : k.Le k') : Written schema k' n text e where
  hasClass d hd s hs := (h.hasClass d hd s hs).mono hle
  reads := h.reads
  plain := h.plain
  disjunct := h.disjunct
  conjunct := h.conjunct
  summand hn hk := h.summand hn (hle.trans hk)
  factor hn hk := h.factor hn (hle.trans hk)
  runs hn hk := h.runs hn (hle.trans hk)
  run hn hk := h.run hn (hle.trans hk)
  nullSummand hn hk := h.nullSummand hn (hle.trans hk)

theorem atom (hclass : e.HasClass schema k) (h : ReadsAs schema 10 text e) (hplain : startsPlain text = true) :
    Written schema k 10 text e where
  hasClass := hclass
  reads := h
  plain _ := hplain
  disjunct _ := .of_reads h (by decide)
  conjunct _ := .of_reads h (by decide)
  summand _ _ := .of_reads h (by decide)
  factor _ _ := .of_reads h (by decide)
  runs _ _ := .inl (h.mono (by decide))
  run _ _ := .of_reads h
  nullSummand _ hk := .of_reads (h.mono (by decide)) fun d hd s hs => (hclass d hd s hs).mono hk

theorem signed (hclass : e.HasClass schema .num) (h : ReadsAs schema 9 text e) : Written schema .num 9 text e where
  hasClass := hclass
  reads := h
  plain hn := absurd hn (by decide)
  disjunct _ := .of_reads h (by decide)
  conjunct _ := .of_reads h (by decide)
  summand _ _ := .of_reads h (by decide)
  factor _ _ := .of_reads h (by decide)
  runs _ hk := nomatch hk
  run _ hk := nomatch hk
  nullSummand _ hk := nomatch hk

theorem condition (hclass : e.HasClass schema k) (h : ReadsAs schema n text e) (hlow : 3 < n) (hhigh : n < 7) :
    Written schema k n text e where
  hasClass := hclass
  reads := h
  plain hn := absurd hn (by omega)
  disjunct _ := .of_reads h (show 2 < n by omega)
  conjunct _ := .of_reads h hlow
  summand hn := absurd hn (by omega)
  factor hn := absurd hn (by omega)
  runs hn := absurd hn (by omega)
  run hn := absurd hn (by omega)
  nullSummand hn := absurd hn (by omega)

theorem paren (h : Written schema k n text e) : Written schema k 10 ("(" ++ text ++ ")") e :=
  atom h.hasClass h.reads.paren (startsPlain_append (startsPlain_append rfl _) _)

section

variable {x : Sql} (h : Written schema k x.strength text e)

include h

theorem guard {p : Nat} (hp : p ≤ 9) : Written schema k p (Sql.guard x p false text) e := by
  unfold Sql.guard
  split
  · exact h.paren.mono (by omega)
  · next hguard =>
    have hle : p ≤ x.precedence := by simpa using hguard
    exact h.mono (Sql.le_strength hp hle)

theorem guard_strict {p : Nat} (hp : p ≤ 8) : Written schema k (p + 1) (Sql.guard x p true text) e := by
  unfold Sql.guard
  split
  · exact h.paren.mono (by omega)
  · next hguard =>
    have hlt : p + 1 ≤ x.precedence := by
      simp only [Bool.true_and, Bool.or_eq_true, decide_eq_true_eq, beq_iff_eq, not_or] at hguard
      omega
    exact h.mono (Sql.le_strength (by omega) hlt)

theorem guard_atomic (hx : ∀ l, x = .literal l → l.number? = none) :
    Written schema k 10 (Sql.guard x atomic false text) e := by
  unfold Sql.guard
  split
  · exact h.paren
  · next hguard =>
    have hle : atomic ≤ x.precedence := by simpa using hguard
    rwa [Sql.strength_atomic hle hx] at h

theorem reads_guard_atomic : ReadsAs schema 9 (Sql.guard x atomic false text) e := by
  unfold Sql.guard
  split
  · exact h.reads.paren
  · next hguard =>
    have hle : atomic ≤ x.precedence := by simpa using hguard
    exact h.reads.mono (Sql.le_strength (by decide) (Nat.le_trans (by decide) hle))

end

theorem neg (h : Written schema .num 10 a e) : Written schema .num 9 ("-" ++ a) (.neg e) := by
  have hclass : (Expr.neg e).HasClass schema .num := fun d hd s hs =>
    d.primitives.arith_number (by decide : ArithOp.sub ≠ .concat) (.num 0) (h.hasClass d hd s hs)
  refine signed hclass ?_
  obtain ⟨e', hreads, hsame⟩ := h.reads
  have hplain := h.plain (by decide)
  obtain ⟨c, rest, hc, hdash, harrow⟩ : ∃ c rest, a.toList = c :: rest ∧ c ≠ '-' ∧ c ≠ '>' := by
    unfold startsPlain at hplain
    cases ha : a.toList with
    | nil => simp [ha] at hplain
    | cons c rest => exact ⟨c, rest, rfl, by simpa [ha] using hplain⟩
  refine ⟨_, hreads.neg hc hdash harrow, hsame.aggregate, fun d hd s hs => ?_⟩
  exact congrArg (d.primitives.arith .sub (.num 0)) (hsame.value d hd s hs)

/-- The operators between numbers. On the right of `-` and `/` parentheses stand also around what
binds as tightly. -/
theorem number {op : ArithOp} (hop : op ≠ .concat) (hl : Written schema .num op.precedence a d)
    (hr : Written schema .num (if op == .sub || op == .div then op.precedence + 1 else op.precedence) b e) :
    Written schema .num op.precedence (a ++ (BinaryOp.arith op).text ++ b) (.arith op d e) := by
  have hclass : (Expr.arith op d e).HasClass schema .num := fun db hdb s hs =>
    db.primitives.arith_number hop (hl.hasClass db hdb s hs) (hr.hasClass db hdb s hs)
  have hlevel : (BinaryOp.arith op).level = op.precedence := by
    cases op <;> first | rfl | exact absurd rfl hop
  have hnext : Continues schema (.arith op) .num b e := by
    cases op with
    | add => exact hr.summand (by decide) .refl
    | sub => exact .of_reads hr.reads (by decide)
    | mul => exact hr.factor (by decide) .refl
    | div => exact .of_reads hr.reads (by decide)
    | concat => exact absurd rfl hop
  have hreads : ReadsAs schema op.precedence (a ++ (BinaryOp.arith op).text ++ b) (.arith op d e) :=
    hlevel ▸ hnext hl.reads hlevel.le hl.hasClass
  have hprecedence : 7 ≤ op.precedence := by cases op <;> decide
  refine
    { hasClass := hclass
      reads := hreads
      plain := fun hn => absurd hn (by cases op <;> decide)
      disjunct := fun _ => .of_reads hreads (show 2 < op.precedence by omega)
      conjunct := fun _ => .of_reads hreads (show 3 < op.precedence by omega)
      summand := fun _ _ => ?_
      factor := fun hn _ => ?_
      runs := fun _ hk => nomatch hk
      run := fun _ hk => nomatch hk
      nullSummand := fun _ hk => nomatch hk }
  · -- on the right of `+` a sum or difference stands without parentheses, so it has to continue one
    have hsum := hl.summand hprecedence .refl
    cases op with
    | add => exact hsum.number .add hl.hasClass hnext hr.hasClass
    | sub => exact hsum.number .sub hl.hasClass hnext hr.hasClass
    | mul | div => exact .of_reads hreads (by decide)
    | concat => exact absurd rfl hop
  · have hproduct := hl.factor hn .refl
    cases op with
    | mul => exact hproduct.number .mul hl.hasClass hnext hr.hasClass
    | div => exact hproduct.number .div hl.hasClass hnext hr.hasClass
    | _ => exact absurd hn (by decide)

theorem addNull (hl : Written schema .null 7 a d) (hr : Written schema .null 7 b e) :
    Written schema .null 7 (a ++ (BinaryOp.arith .add).text ++ b) (.arith .add d e) := by
  have hruns := hr.nullSummand (by decide) .refl (hl.runs (by decide) .null)
  have hadd : ArithOp.add ≠ .concat := by decide
  have hnumber : Written schema .num 7 (a ++ (BinaryOp.arith .add).text ++ b) (.arith .add d e) :=
    number hadd (hl.weaken .null) (hr.weaken .null)
  refine
    { hasClass := fun db hdb s hs => ?_
      reads := hnumber.reads
      plain := hnumber.plain
      disjunct := hnumber.disjunct
      conjunct := hnumber.conjunct
      summand := fun hn _ => hnumber.summand hn .refl
      factor := fun hn => absurd hn (by decide)
      runs := fun _ _ => hruns
      run := fun _ _ => (hl.run (by decide) .null).appendNull hl.hasClass (hr.nullSummand (by decide) .refl)
      nullSummand := fun _ _ =>
        (hl.nullSummand (by decide) .refl).append hl.hasClass (hr.nullSummand (by decide) .refl) }
  have hnull : (Expr.arith .add d e).eval db s = .null :=
    db.primitives.arith_null .add (.inl (hl.hasClass.eval_eq hdb hs))
  rw [hnull]
  exact .null

theorem concat (hl : Written schema .text 7 a d) (hr : Written schema .text 7 b e) :
    Written schema .text 7 (a ++ (BinaryOp.arith .concat).text ++ b) (.arith .concat d e) := by
  have hclass : (Expr.arith .concat d e).HasClass schema .text := fun db hdb s hs =>
    db.primitives.arith_concat (hl.hasClass db hdb s hs) (hr.hasClass db hdb s hs)
  have hrun := hr.run (by decide) .refl
  have hruns := hrun (hl.runs (by decide) .refl) hl.hasClass
  exact
    { hasClass := hclass
      reads := hruns.reads
      plain := fun hn => absurd hn (by decide)
      disjunct := fun _ => .of_reads hruns.reads (by decide)
      conjunct := fun _ => .of_reads hruns.reads (by decide)
      summand := fun _ hk => nomatch hk
      factor := fun _ hk => nomatch hk
      runs := fun _ _ => hruns
      run := fun _ _ => (hl.run (by decide) .refl).append hl.hasClass hrun hr.hasClass
      nullSummand := fun _ hk => nomatch hk }

end Written

def connective (settles : Bool) : BinaryOp := if settles then .or else .and

def joinedExpr (settles : Bool) : List Expr → Expr
  | [] => .literal .null
  | [e] => e
  | e :: rest => (connective settles).apply e (joinedExpr settles rest)

section

variable {settles : Bool}

theorem connective_value (p : Primitives) (v w : Value) :
    (connective settles).value p v w = .ofTruth (kleene settles [p.truth v, p.truth w]) := by
  cases settles <;> rfl

theorem truth_joinedExpr (d : Database) (s : Scope) {es : List Expr} (hne : es ≠ []) :
    d.primitives.truth ((joinedExpr settles es).eval d s) =
      kleene settles (es.map fun e => d.primitives.truth (e.eval d s)) := by
  fun_induction joinedExpr settles es with
  | case1 => exact absurd rfl hne
  | case2 e => exact (kleene_singleton _).symm
  | case3 e rest hrest ih =>
    rw [BinaryOp.eval_apply, connective_value, Primitives.truth_ofTruth, ih hrest, List.map_cons, ← kleene_cons]

theorem eval_joinedExpr (d : Database) (s : Scope) {es : List Expr} (hlength : 2 ≤ es.length) :
    (joinedExpr settles es).eval d s = .ofTruth (kleene settles (es.map fun e => d.primitives.truth (e.eval d s))) := by
  match es, hlength with
  | e :: e' :: rest, _ =>
    change ((connective settles).apply e (joinedExpr settles (e' :: rest))).eval d s = _
    rw [BinaryOp.eval_apply, connective_value, truth_joinedExpr d s (by simp), ← kleene_cons]
    rfl

theorem hasAggregate_joinedExpr {es : List Expr} : (joinedExpr settles es).hasAggregate = anyAggregate es := by
  fun_induction joinedExpr settles es with
  | case1 => rfl
  | case2 e => exact (Bool.or_false _).symm
  | case3 e rest hrest ih => rw [BinaryOp.hasAggregate_apply, ih, anyAggregate]

theorem Agrees.joined {conditions items : List Sql} {es : List Expr}
    (h : List.Forall₂ (Agrees schema conditions) items es) (hlength : 2 ≤ items.length) :
    Agrees schema conditions (Sql.joined settles items) (joinedExpr settles es) := by
  refine ⟨?_, fun d hd s hs => ?_⟩
  · have hany : (Sql.joined settles items).hasAggregate = Sql.anyAggregate items := by cases settles <;> rfl
    rw [hasAggregate_joinedExpr, anyAggregate_eq h, hany]
  · have hvalue : (Sql.joined settles items).eval d.primitives (d.frame conditions s) = .ofTruth
        (kleene settles ((Sql.evalAll d.primitives (d.frame conditions s) items).map d.primitives.truth)) := by
      cases settles <;> rfl
    rw [eval_joinedExpr d s (h.length_eq ▸ hlength), hvalue, ← evalAll_eq hs hd h, evalAll_eq_map, List.map_map]
    rfl

theorem continues_join {texts : List String} {es : List Expr}
    (h : List.Forall₂ (Continues schema (connective settles) .any) texts es) (hne : texts ≠ []) :
    Continues schema (connective settles) .any (join (connective settles).text texts) (joinedExpr settles es) := by
  have hop : connective settles = .and ∨ connective settles = .or := by cases settles <;> simp [connective]
  induction h with
  | nil => exact absurd rfl hne
  | cons ht hrest ih =>
    cases hrest with
    | nil => exact ht
    | cons ht' hrest' => exact ht.condition hop (ih (by simp))

theorem readsAs_join {text : String} {texts : List String} {e : Expr} {es : List Expr}
    (h : ReadsAs schema (connective settles).level text e)
    (hrest : List.Forall₂ (Continues schema (connective settles) .any) texts es) :
    ReadsAs schema (connective settles).level (join (connective settles).text (text :: texts))
      (joinedExpr settles (e :: es)) := by
  cases hrest with
  | nil => exact h
  | cons ht hrest => exact continues_join (.cons ht hrest) (by simp) h (Nat.le_refl _) fun _ _ _ _ => .any _

theorem Written.joined {texts : List String} {es : List Expr}
    (h : List.Forall₂ (Written schema .bool (connective settles).level) texts es) (hlength : 2 ≤ es.length) :
    Written schema .bool (connective settles).level (join (connective settles).text texts) (joinedExpr settles es) := by
  have hcontinues : List.Forall₂ (Continues schema (connective settles) .any) texts es := by
    refine h.imp fun t e ht => ?_
    cases settles with
    | false => exact ht.conjunct (by decide)
    | true => exact ht.disjunct (by decide)
  have hreads : ReadsAs schema (connective settles).level (join (connective settles).text texts)
      (joinedExpr settles es) := by
    cases h with
    | nil => exact absurd hlength (by decide)
    | cons ht hrest =>
      cases hcontinues with
      | cons _ hrest' => exact readsAs_join ht.reads hrest'
  have hjoined := continues_join hcontinues (by rintro rfl; cases h; exact absurd hlength (by decide))
  have hlow : ¬ 4 ≤ (connective settles).level := by cases settles <;> decide
  refine
    { hasClass := fun d _ s _ => ?_
      reads := hreads
      plain := fun hn => absurd hn (by omega)
      disjunct := fun _ => ?_
      conjunct := fun hn => ?_
      summand := fun hn => absurd hn (by omega)
      factor := fun hn => absurd hn (by omega)
      runs := fun hn => absurd hn (by omega)
      run := fun hn => absurd hn (by omega)
      nullSummand := fun hn => absurd hn (by omega) }
  · rw [eval_joinedExpr d s hlength]
    exact .ofTruth _
  · cases settles with
    | false => exact .of_reads hreads (by decide)
    | true => exact hjoined
  · cases settles with
    | false => exact hjoined
    | true => exact absurd hn (by decide)

end

end Reader

end ShelfQuery.Sql
