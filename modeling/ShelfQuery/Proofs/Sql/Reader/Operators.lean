import ShelfQuery.Proofs.Sql.Reader.Agreement
import ShelfQuery.Proofs.Sql.Reader.Texts

set_option autoImplicit false

/-!
# Operators without parentheses

Operators of one strength are read from the left, so `a + (b - c)` that is written without parentheses is read as `(a
+ b) - c`. `Continues` and `Runs` say after what a text may be written so.
-/

namespace ShelfQuery.Sql

open ShelfQuery.Schema
open ShelfQuery.Engine (allTrue anyTrue)

theorem kleene_assoc (settles : Bool) (x y z : Option Bool) :
    kleene settles [kleene settles [x, y], z] = kleene settles [x, kleene settles [y, z]] := by
  have happend : kleene settles ([x, y] ++ [z]) = kleene settles [kleene settles [x, y], kleene settles [z]] :=
    kleene_append
  rw [kleene_singleton] at happend
  exact happend.symm.trans (kleene_cons x)

namespace Primitives

variable (p : Primitives)

theorem arith_null_right (op : ArithOp) (a : Value) : p.arith op a .null = .null := by
  cases a <;> rfl

theorem arith_null {a b : Value} (op : ArithOp) (h : a = .null ∨ b = .null) : p.arith op a b = .null := by
  rcases h with rfl | rfl
  · rfl
  · exact p.arith_null_right op a

/-- The operator of a strength that operands may be regrouped under, with the other one of it. -/
inductive Regroups : ArithOp → ArithOp → Prop where
  | add : Regroups .add .add
  | sub : Regroups .add .sub
  | mul : Regroups .mul .mul
  | div : Regroups .mul .div

theorem arith_regroup {op op' : ArithOp} (h : Regroups op op') {a b c : Value} (ha : a.HasClass .num)
    (hb : b.HasClass .num) (hc : c.HasClass .num) :
    p.arith op' (p.arith op a b) c = p.arith op a (p.arith op' b c) := by
  cases ha with
  | null => rfl
  | num x =>
    cases hb with
    | null => rfl
    | num y =>
      cases hc with
      | null => rw [arith_null_right, arith_null_right, arith_null_right]
      | num z =>
        cases h with
        | add => exact congrArg Value.num (add_assoc x y z)
        | sub => exact congrArg Value.num (add_sub_assoc x y z)
        | mul => exact congrArg Value.num (mul_assoc x y z)
        | div =>
          by_cases hz : z = 0
          · simp [arith, hz]
          · simp [arith, hz, mul_div_assoc]

theorem concat_assoc {a b c : Value} (ha : a.HasClass .text) (hb : b.HasClass .text) (hc : c.HasClass .text) :
    p.arith .concat (p.arith .concat a b) c = p.arith .concat a (p.arith .concat b c) := by
  cases ha with
  | null => rfl
  | text s =>
    cases hb with
    | null => rfl
    | text t =>
      cases hc with
      | null => rw [arith_null_right, arith_null_right, arith_null_right]
      | text u => exact congrArg Value.text String.append_assoc

end Primitives

namespace Reader

variable {schema : Table}

namespace BinaryOp

def text : BinaryOp → String
  | .arith op => " " ++ op.symbol ++ " "
  | .modulo => " % "
  | .compare op => " " ++ op.symbol ++ " "
  | .and => " AND "
  | .or => " OR "

def token : BinaryOp → Token
  | .arith .add => .symbol .plus
  | .arith .sub => .symbol .minus
  | .arith .mul => .symbol .star
  | .arith .div => .symbol .slash
  | .arith .concat => .symbol .bars
  | .modulo => .symbol .percent
  | .compare .eq => .symbol .eq
  | .compare .ne => .symbol .ne
  | .compare .lt => .symbol .lt
  | .compare .le => .symbol .le
  | .compare .gt => .symbol .gt
  | .compare .ge => .symbol .ge
  | .compare .like => .word "LIKE"
  | .and => .word "AND"
  | .or => .word "OR"

theorem opens_text (op : BinaryOp) : Opens op.text [op.token] := by
  cases op with
  | arith op => cases op <;> rfl
  | compare op => cases op <;> rfl
  | _ => rfl

theorem breaks_text (op : BinaryOp) : Breaks op.text := by
  cases op with
  | arith op => cases op <;> rfl
  | compare op => cases op <;> rfl
  | _ => rfl

theorem binary?_token (op : BinaryOp) : op.token.binary? = some op := by
  cases op with
  | arith op => cases op <;> rfl
  | compare op => cases op <;> rfl
  | _ => rfl

def value (p : Primitives) : BinaryOp → Value → Value → Value
  | .arith op, a, b => p.arith op a b
  | .modulo, a, b => p.modulo a b
  | .compare op, a, b => .ofTruth (p.holds op a b)
  | .and, a, b => .ofTruth (allTrue [p.truth a, p.truth b])
  | .or, a, b => .ofTruth (anyTrue [p.truth a, p.truth b])

theorem eval_apply (op : BinaryOp) (d : Database) (s : Scope) (e f : Expr) :
    (op.apply e f).eval d s = op.value d.primitives (e.eval d s) (f.eval d s) := by
  cases op <;> rfl

theorem hasAggregate_apply (op : BinaryOp) (e f : Expr) :
    (op.apply e f).hasAggregate = (e.hasAggregate || f.hasAggregate) := by
  cases op <;> rfl

end BinaryOp

structure Same (schema : Table) (e e' : Expr) : Prop where
  aggregate : e.hasAggregate = e'.hasAggregate
  value : ∀ d : Database, d.Conforms schema → ∀ s : Scope, s.Conforms schema → e.eval d s = e'.eval d s

def Expr.HasClass (schema : Table) (k : ValueClass) (e : Expr) : Prop :=
  ∀ d : Database, d.Conforms schema → ∀ s : Scope, s.Conforms schema → (e.eval d s).HasClass k

theorem Expr.HasClass.eval_eq {e : Expr} (h : e.HasClass schema .null) {d : Database} (hd : d.Conforms schema)
    {s : Scope} (hs : s.Conforms schema) : e.eval d s = .null := by
  have hnull := h d hd s hs
  generalize e.eval d s = v at hnull
  cases hnull
  rfl

theorem Agrees.hasClass {conditions : List Sql} {k : ValueClass} {x : Sql} {e : Expr} (h : Agrees schema conditions x e)
    (hx : x.WellTyped schema k) : e.HasClass schema k := by
  intro d hd s hs
  rw [h.value d hd s hs]
  exact hx.eval_hasClass hd.sqlite.toLawful (hd.frame hs)

namespace Same

variable {e e' e'' f f' : Expr}

theorem refl (e : Expr) : Same schema e e := ⟨rfl, fun _ _ _ _ => rfl⟩

theorem trans (h : Same schema e e') (h' : Same schema e' e'') : Same schema e e'' :=
  ⟨h.aggregate.trans h'.aggregate, fun d hd s hs => (h.value d hd s hs).trans (h'.value d hd s hs)⟩

theorem apply (op : BinaryOp) (h : Same schema e e') (h' : Same schema f f') :
    Same schema (op.apply e f) (op.apply e' f') := by
  refine ⟨?_, fun d hd s hs => ?_⟩
  · rw [op.hasAggregate_apply, op.hasAggregate_apply, h.aggregate, h'.aggregate]
  · rw [op.eval_apply, op.eval_apply, h.value d hd s hs, h'.value d hd s hs]

theorem agrees {conditions : List Sql} {x : Sql} (h : Same schema e e') (hx : Agrees schema conditions x e') :
    Agrees schema conditions x e :=
  ⟨h.aggregate.trans hx.aggregate, fun d hd s hs => (h.value d hd s hs).trans (hx.value d hd s hs)⟩

theorem regroup {o o' p p' : ArithOp} {l : Expr}
    (h : ∀ d : Database, d.Conforms schema → ∀ s : Scope, s.Conforms schema →
      d.primitives.arith o (d.primitives.arith o' (l.eval d s) (e.eval d s)) (f.eval d s) =
        d.primitives.arith p (l.eval d s) (d.primitives.arith p' (e.eval d s) (f.eval d s))) :
    Same schema (.arith o (.arith o' l e) f) (.arith p l (.arith p' e f)) :=
  ⟨Bool.or_assoc _ _ _, h⟩

/-- Around a null, operators may be exchanged as well. -/
theorem regroup_null {o o' p p' : ArithOp} (l f : Expr) (he : e.HasClass schema .null) :
    Same schema (.arith o (.arith o' l e) f) (.arith p l (.arith p' e f)) := by
  refine regroup fun d hd s hs => ?_
  rw [he.eval_eq hd hs, d.primitives.arith_null o' (.inr rfl), d.primitives.arith_null o (.inl rfl),
    d.primitives.arith_null p' (.inl rfl), d.primitives.arith_null p (.inr rfl)]

end Same

def ReadsAs (schema : Table) (k : Nat) (text : String) (e : Expr) : Prop := ∃ e', Reads k text e' ∧ Same schema e' e

namespace ReadsAs

variable {k m : Nat} {a b : String} {d e : Expr}

theorem of_reads (h : Reads k a e) : ReadsAs schema k a e := ⟨e, h, .refl e⟩

theorem mono (h : ReadsAs schema k a e) (hle : m ≤ k) : ReadsAs schema m a e := by
  obtain ⟨e', h, hsame⟩ := h
  exact ⟨e', h.mono hle, hsame⟩

theorem congr (h : ReadsAs schema k a d) (hsame : Same schema d e) : ReadsAs schema k a e := by
  obtain ⟨d', h, hsame'⟩ := h
  exact ⟨d', h, hsame'.trans hsame⟩

theorem paren (h : ReadsAs schema k a e) : ReadsAs schema m ("(" ++ a ++ ")") e := by
  obtain ⟨e', h, hsame⟩ := h
  exact ⟨e', h.paren, hsame⟩

theorem binary (op : BinaryOp) (ha : ReadsAs schema m a d) (hb : ReadsAs schema k b e) (hm : op.level ≤ m)
    (hk : op.level < k) : ReadsAs schema op.level (a ++ op.text ++ b) (op.apply d e) := by
  obtain ⟨d', ha, hd⟩ := ha
  obtain ⟨e', hb, he⟩ := hb
  exact ⟨_, Reads.binary op.opens_text op.breaks_text op.binary?_token ha hb hm hk, .apply op hd he⟩

end ReadsAs

theorem text_regroup (a g b g' c : String) : a ++ g ++ (b ++ g' ++ c) = a ++ g ++ b ++ g' ++ c := by
  simp only [String.append_assoc]

/-- `text` may follow any operand of class `k` and the operator. -/
def Continues (schema : Table) (op : BinaryOp) (k : ValueClass) (text : String) (e : Expr) : Prop :=
  ∀ ⦃m : Nat⦄ ⦃a : String⦄ ⦃l : Expr⦄, ReadsAs schema m a l → op.level ≤ m → l.HasClass schema k →
    ReadsAs schema op.level (a ++ op.text ++ text) (op.apply l e)

namespace Continues

variable {op op' : BinaryOp} {k : ValueClass} {n : Nat} {b c : String} {d e : Expr}

theorem of_reads (h : ReadsAs schema n b e) (hn : op.level < n) : Continues schema op k b e :=
  fun _ _ _ ha hm _ => ha.binary op h hm hn

theorem append (h : Continues schema op k b d) (h' : Continues schema op' k c e) (hlevel : op'.level = op.level)
    (hclass : ∀ l : Expr, l.HasClass schema k → (op.apply l d).HasClass schema k)
    (hregroup : ∀ l : Expr, l.HasClass schema k →
      Same schema (op'.apply (op.apply l d) e) (op.apply l (op'.apply d e))) :
    Continues schema op k (b ++ op'.text ++ c) (op'.apply d e) := by
  intro m a l ha hm hl
  -- read from the left: first `a op b`, which is then the operand before `op'`
  rw [text_regroup, ← hlevel]
  exact (h' (h ha hm hl) hlevel.le (hclass l hl)).congr (hregroup l hl)

theorem number {op op' : ArithOp} (hop : Primitives.Regroups op op') (h : Continues schema (.arith op) .num b d)
    (hd : d.HasClass schema .num) (h' : Continues schema (.arith op') .num c e) (he : e.HasClass schema .num) :
    Continues schema (.arith op) .num (b ++ (BinaryOp.arith op').text ++ c) (.arith op' d e) := by
  have hconcat : op ≠ .concat := by cases hop <;> decide
  refine h.append h' (by cases hop <;> rfl) (fun l hl db hdb s hs => ?_) fun l hl => .regroup fun db hdb s hs => ?_
  · exact db.primitives.arith_number hconcat (hl db hdb s hs) (hd db hdb s hs)
  · exact db.primitives.arith_regroup hop (hl db hdb s hs) (hd db hdb s hs) (he db hdb s hs)

theorem condition {op : BinaryOp} (hop : op = .and ∨ op = .or) (h : Continues schema op .any b d)
    (h' : Continues schema op .any c e) : Continues schema op .any (b ++ op.text ++ c) (op.apply d e) := by
  refine h.append h' rfl (fun l _ db _ s _ => .any _) fun l _ => ⟨?_, fun db _ s _ => ?_⟩
  · simp only [BinaryOp.hasAggregate_apply, Bool.or_assoc]
  · rcases hop with rfl | rfl
    · change Value.ofTruth (kleene false [db.primitives.truth (.ofTruth (kleene false _)), _]) =
        Value.ofTruth (kleene false [_, db.primitives.truth (.ofTruth (kleene false _))])
      rw [Primitives.truth_ofTruth, Primitives.truth_ofTruth, kleene_assoc]
    · change Value.ofTruth (kleene true [db.primitives.truth (.ofTruth (kleene true _)), _]) =
        Value.ofTruth (kleene true [_, db.primitives.truth (.ofTruth (kleene true _))])
      rw [Primitives.truth_ofTruth, Primitives.truth_ofTruth, kleene_assoc]

end Continues

/-- A run of `||`, or a sum with such a run at its end of which one side is null. -/
def Runs (schema : Table) (text : String) (e : Expr) : Prop :=
  ReadsAs schema 9 text e ∨
    ∃ (b c : String) (f g : Expr), text = b ++ (BinaryOp.arith .add).text ++ c ∧ ReadsAs schema 7 b f ∧
      ReadsAs schema 9 c g ∧ Same schema (.arith .add f g) e ∧
      ∀ d : Database, d.Conforms schema → ∀ s : Scope, s.Conforms schema → f.eval d s = .null ∨ g.eval d s = .null

/-- `text` may follow any run and `||`. -/
def ContinuesRun (schema : Table) (text : String) (e : Expr) : Prop :=
  ∀ ⦃a : String⦄ ⦃l : Expr⦄, Runs schema a l → l.HasClass schema .text →
    Runs schema (a ++ (BinaryOp.arith .concat).text ++ text) (.arith .concat l e)

/-- `text` may follow any run and `+`. -/
def ContinuesSum (schema : Table) (text : String) (e : Expr) : Prop :=
  ∀ ⦃a : String⦄ ⦃l : Expr⦄, Runs schema a l →
    Runs schema (a ++ (BinaryOp.arith .add).text ++ text) (.arith .add l e)

namespace Runs

variable {a b : String} {d e : Expr}

theorem reads (h : Runs schema a e) : ReadsAs schema 7 a e := by
  rcases h with h | ⟨b, c, f, g, rfl, hb, hc, hsame, -⟩
  · exact h.mono (by decide)
  · exact (hb.binary (.arith .add) hc (by decide) (by decide)).congr hsame

theorem congr (h : Runs schema a d) (hsame : Same schema d e) : Runs schema a e := by
  rcases h with h | ⟨b, c, f, g, rfl, hb, hc, hsame', hnull⟩
  · exact .inl (h.congr hsame)
  · exact .inr ⟨b, c, f, g, rfl, hb, hc, hsame'.trans hsame, hnull⟩

theorem concat (h : Runs schema a d) (h' : ReadsAs schema 10 b e) :
    Runs schema (a ++ (BinaryOp.arith .concat).text ++ b) (.arith .concat d e) := by
  rcases h with h | ⟨b', c, f, g, rfl, hb, hc, hsame, hnull⟩
  · exact .inl (h.binary (.arith .concat) h' (by decide) (by decide))
  · -- `f + g || e` is read as `f + (g || e)`; as one side was null, both groupings are
    refine .inr ⟨b', c ++ (BinaryOp.arith .concat).text ++ b, f, .arith .concat g e, ?_, hb,
      hc.binary (.arith .concat) h' (by decide) (by decide), ⟨?_, fun db hdb s hs => ?_⟩, fun db hdb s hs => ?_⟩
    · simp only [String.append_assoc]
    · have haggregate : (f.hasAggregate || g.hasAggregate) = d.hasAggregate := hsame.aggregate
      change (f.hasAggregate || (g.hasAggregate || e.hasAggregate)) = (d.hasAggregate || e.hasAggregate)
      rw [← haggregate, Bool.or_assoc]
    · have hd : d.eval db s = .null :=
        (hsame.value db hdb s hs).symm.trans (db.primitives.arith_null _ (hnull db hdb s hs))
      change db.primitives.arith .add (f.eval db s) (db.primitives.arith .concat (g.eval db s) (e.eval db s)) =
        db.primitives.arith .concat (d.eval db s) (e.eval db s)
      rw [hd, db.primitives.arith_null .concat (.inl rfl)]
      refine db.primitives.arith_null .add ((hnull db hdb s hs).imp_right fun hg => ?_)
      rw [hg, db.primitives.arith_null .concat (.inl rfl)]
    · refine (hnull db hdb s hs).imp_right fun hg => ?_
      change db.primitives.arith .concat (g.eval db s) (e.eval db s) = .null
      rw [hg, db.primitives.arith_null .concat (.inl rfl)]

theorem add (h : Runs schema a d) (h' : ReadsAs schema 9 b e) (he : e.HasClass schema .null) :
    Runs schema (a ++ (BinaryOp.arith .add).text ++ b) (.arith .add d e) := by
  exact .inr ⟨a, b, d, e, rfl, h.reads, h', .refl _, fun db hdb s hs => .inr (he.eval_eq hdb hs)⟩

end Runs

theorem ContinuesSum.of_reads {b : String} {e : Expr} (h : ReadsAs schema 9 b e) (he : e.HasClass schema .null) :
    ContinuesSum schema b e := fun _ _ ha => ha.add h he

theorem ContinuesRun.of_reads {b : String} {e : Expr} (h : ReadsAs schema 10 b e) : ContinuesRun schema b e :=
  fun _ _ ha _ => ha.concat h

section

variable {b c : String} {d e : Expr}

theorem ContinuesSum.append (h : ContinuesSum schema b d) (hd : d.HasClass schema .null)
    (h' : ContinuesSum schema c e) :
    ContinuesSum schema (b ++ (BinaryOp.arith .add).text ++ c) (.arith .add d e) := by
  intro a l ha
  rw [text_regroup]
  exact (h' (h ha)).congr (.regroup_null l e hd)

theorem ContinuesRun.append (h : ContinuesRun schema b d) (hd : d.HasClass schema .text) (h' : ContinuesRun schema c e)
    (he : e.HasClass schema .text) :
    ContinuesRun schema (b ++ (BinaryOp.arith .concat).text ++ c) (.arith .concat d e) := by
  intro a l ha hl
  have hclass : (Expr.arith .concat l d).HasClass schema .text :=
    fun db hdb s hs => db.primitives.arith_concat (hl db hdb s hs) (hd db hdb s hs)
  rw [text_regroup]
  refine (h' (h ha hl) hclass).congr (.regroup fun db hdb s hs => ?_)
  exact db.primitives.concat_assoc (hl db hdb s hs) (hd db hdb s hs) (he db hdb s hs)

theorem ContinuesRun.appendNull (h : ContinuesRun schema b d) (hd : d.HasClass schema .null)
    (h' : ContinuesSum schema c e) :
    ContinuesRun schema (b ++ (BinaryOp.arith .add).text ++ c) (.arith .add d e) := by
  intro a l ha hl
  rw [text_regroup]
  exact (h' (h ha hl)).congr (.regroup_null l e hd)

end

end Reader

end ShelfQuery.Sql
