import ShelfQuery.Proofs.Compiler.Exact
import ShelfQuery.Proofs.Compiler.MachineNumbers
import ShelfQuery.Proofs.Compiler.Preservation

set_option autoImplicit false

namespace ShelfQuery.Sql

open ShelfQuery.Number

/-- The number zero: an integer, or a double with either sign. -/
def Literal.IsZero : Literal → Prop
  | .int n => n = 0
  | .float x => Binary64.isFinite x = true ∧ Binary64.value x = 0
  | _ => False

/-- Null, and every number but zero. -/
def Literal.IsDivisor : Literal → Prop
  | .null => True
  | .int n => n ≠ 0
  | .float x => Binary64.isFinite x = true ∧ Binary64.value x ≠ 0
  | _ => False

theorem isZero_of_zero {v : Literal} (h : v.IsZero) : Expression.isZero v = true := by
  cases v with
  | int n =>
    obtain rfl : n = 0 := h
    decide +kernel
  | float x =>
    obtain ⟨hfinite, hvalue⟩ := h
    exact (Binary64.beq_iff hfinite (by decide +kernel)).mpr (hvalue.trans (by decide +kernel))
  | _ => exact h.elim

theorem isDivisor_of_machine {v : Literal} (hclass : v.valueClass.Le .num) (hmachine : v.isMachine = true)
    (hzero : Expression.isZero v = false) : v.IsDivisor := by
  have hnot : ¬ v.IsZero := fun h => nomatch hzero.symm.trans (isZero_of_zero h)
  cases v with
  | null => trivial
  | int n => exact hnot
  | float x => exact ⟨hmachine, fun hvalue => hnot ⟨hmachine, hvalue⟩⟩
  | _ => exact nomatch hclass

section

/-- `x.Holds parent y`: `y` is `x` itself, or it stands in `x` as a part of `parent`. -/
inductive Holds (x : Sql) : Option Sql → Sql → Prop where
  | whole : Holds x none x
  | part {parent y : Sql} : x.Within parent → y ∈ parent.children → Holds x (some parent) y

/-- If `y` is a quotient, then its divisor is a literal that is not zero, or `y` is a part of a case that gives
null where the divisor is zero. -/
def GuardedIn (parent : Option Sql) (y : Sql) : Prop :=
  ∀ l r, y = .arith .div l r →
    (∃ v, r = .literal v ∧ v.valueClass.Le .num ∧ Expression.isZero v = false) ∨
    ∃ d, r = .cast d .float ∧ parent = some (.case [(.compare .eq d (.literal (.int 0)), .null)] (some y))

structure Guarded (x : Sql) : Prop where
  whole : GuardedIn none x
  parts : x.Everywhere fun z => ∀ y ∈ z.children, GuardedIn (some z) y

variable {x y : Sql}

theorem guardedIn_of_not_quotient (parent : Option Sql) (h : y.isQuotient = false) : GuardedIn parent y := by
  rintro l r rfl
  exact nomatch h

theorem GuardedIn.mono (h : GuardedIn none y) (parent : Option Sql) : GuardedIn parent y := by
  intro l r hy
  rcases h l r hy with hliteral | ⟨d, -, hparent⟩
  · exact .inl hliteral
  · exact nomatch hparent

theorem guarded_of_children (hx : GuardedIn none x) (h : ∀ y ∈ x.children, Guarded y) : Guarded x :=
  ⟨hx, everywhere_iff.mpr ⟨fun y hy => (h y hy).whole.mono _, fun y hy => (h y hy).parts⟩⟩

theorem guarded_literal (l : Literal) : Guarded (.literal l) :=
  guarded_of_children (guardedIn_of_not_quotient _ rfl) nofun

theorem composes_guarded : Composes Guarded where
  build _ _ hquotient h := guarded_of_children (guardedIn_of_not_quotient _ hquotient) h
  part {x y} hopenable h hy := by
    refine ⟨fun l r hquotient => ?_, h.parts.child hy⟩
    rcases h.parts x .self y hy l r hquotient with hliteral | ⟨d, -, hparent⟩
    · exact .inl hliteral
    · cases hparent
      exact nomatch hopenable

end

end ShelfQuery.Sql

namespace ShelfQuery.Expression

open ShelfQuery.Sql ShelfQuery.Schema ShelfQuery.Number

theorem guarded_asFloat {x : Sql} (h : x.Guarded) : (asFloat x).Guarded := by
  unfold asFloat
  split
  · exact h
  · exact Sql.composes_guarded.one rfl rfl rfl h

theorem guarded_case {num den : Sql} (hnum : num.Guarded) (hden : den.Guarded) :
    (Sql.case [(.compare .eq den (.literal (.int 0)), .null)] (some (.arith .div num (.cast den .float)))).Guarded := by
  have hzero : (Sql.compare .eq den (.literal (.int 0))).Guarded :=
    Sql.composes_guarded.compare hden (Sql.guarded_literal _)
  have hcast : (Sql.cast den .float).Guarded := Sql.composes_guarded.one rfl rfl rfl hden
  refine ⟨Sql.guardedIn_of_not_quotient _ rfl, Sql.everywhere_iff.mpr ⟨?_, ?_⟩⟩
  · intro y hy
    simp only [Sql.children, List.flatMap_cons, List.flatMap_nil, Option.toList_some, List.cons_append, List.nil_append,
      List.mem_cons, List.not_mem_nil, or_false] at hy
    rcases hy with rfl | rfl | rfl
    · exact Sql.guardedIn_of_not_quotient _ rfl
    · exact Sql.guardedIn_of_not_quotient _ rfl
    · rintro l r ⟨⟩
      exact .inr ⟨den, rfl, rfl⟩
  · intro y hy
    simp only [Sql.children, List.flatMap_cons, List.flatMap_nil, Option.toList_some, List.cons_append, List.nil_append,
      List.mem_cons, List.not_mem_nil, or_false] at hy
    rcases hy with rfl | rfl | rfl
    · exact hzero.parts
    · exact (Sql.guarded_literal _).parts
    · have hparts : ∀ y ∈ (Sql.arith .div num (.cast den .float)).children, y.Guarded := by
        simpa [Sql.children] using ⟨hnum, hcast⟩
      exact Sql.everywhere_iff.mpr ⟨fun y hy => (hparts y hy).whole.mono _, fun y hy => (hparts y hy).parts⟩

theorem carries_guarded : Carries Sql.Guarded where
  toComposes := Sql.composes_guarded
  negated _ := Sql.guarded_literal _
  folded _ _ := Sql.guarded_literal _
  whole _ := Sql.guarded_literal _
  divided {l r sql} hl hr hclass h := by
    cases divided_of_divide h with
    | one => exact hl
    | @literal v hv hzero _ =>
      refine Sql.guarded_of_children ?_ (by simpa [Sql.children] using ⟨guarded_asFloat hl, hr⟩)
      rintro _ _ ⟨⟩
      exact .inl ⟨v, hv, hclass v hv, hzero⟩
    | guarded => exact guarded_case (guarded_asFloat hl) hr

variable {c : Context} {scope : Scope}

theorem Compiles.guarded {tree : Tree} {t : Typed} (h : Compiles c scope tree t) : t.sql.Guarded := by
  refine h.carried carries_guarded ?_ (@fun _ aggregate _ t _ _ ht => ?_) fun _ _ _ _ _ _ => Sql.guarded_literal _
  · refine Sql.guarded_of_children (Sql.guardedIn_of_not_quotient _ rfl) (List.forall_mem_singleton.mpr ?_)
    exact Sql.composes_guarded.atom rfl rfl rfl rfl
  · have hchildren : (aggregate.apply t).sql.children = [t.sql] := by cases aggregate <;> rfl
    refine Sql.guarded_of_children (Sql.guardedIn_of_not_quotient _ (by cases aggregate <;> rfl)) ?_
    rw [hchildren]
    exact List.forall_mem_singleton.mpr ht

/-- A quotient compiles only if its divisor is no constant zero, or if null is divided. -/
theorem Compiles.null_of_zero {pos : Nat} {num den : Tree} {t : Typed} {v : Literal}
    (h : Compiles c scope (.arith pos .div num den) t) (hden : den.constant? = some v) (hv : v.IsZero) :
    num.foldsToNull = true := by
  have hzero := isZero_of_zero hv
  cases h with
  | @arithFold _ _ _ _ _ l r _ a b _ hnum hright _ ha hb hfold =>
    have hplain := hright.constant?_eq
    rw [hden, hb] at hplain
    obtain rfl : b = v := plainLiteral?_eq_some hplain.symm
    rw [hnum.foldsToNull_eq, ha]
    cases folded_of_foldArith hfold with
    | null hnull =>
      rcases hnull with rfl | rfl
      · rfl
      · exact hv.elim
    | one _ hnot => exact nomatch hnot.symm.trans hzero
    | number _ _ _ hnot => exact nomatch (hnot rfl).1.symm.trans hzero
  | @arith _ _ _ _ _ l r _ sql hnum hright _ _ hsql =>
    have hplain := hright.constant?_eq
    rw [hden] at hplain
    have hliteral := plain?_eq_some hplain.symm
    have hnot {b : Literal} (hb : r.sql = .literal b) (hb' : isZero b = false) : num.foldsToNull = true := by
      rw [hliteral] at hb
      cases hb
      exact nomatch hb'.symm.trans hzero
    cases divided_of_divide hsql with
    | one hb hb' | literal hb hb' => exact hnot hb hb'
    | guarded hguarded => simp [hliteral, Sql.isLiteral] at hguarded

/-- Nothing is divided by zero. In a compiled expression every divisor is a literal other than zero or stands
under a case that asks for zero first; and no tree compiles in which something other than null is divided by
a constant zero. -/
theorem Tree.divisors (c : Context) (tree : Tree) :
    (∀ compiled, tree.compile c = .ok compiled → tree.Everywhere Tree.HasWord → ∀ parent l r,
      compiled.sql.Holds parent (.arith .div l r) →
      (∃ v, r = .literal v ∧ v.IsDivisor) ∨
      ∃ d, r = .cast d .float ∧
        parent = some (.case [(.compare .eq d (.literal (.int 0)), .null)] (some (.arith .div l r)))) ∧
    ∀ pos num den v, tree.Within (.arith pos .div num den) → den.constant? = some v → v.IsZero →
      num.foldsToNull = false → ∃ faults, tree.compile c = .error faults := by
  constructor
  · intro compiled hcompile hwords parent l r hholds
    obtain ⟨hcompiles, -⟩ := compiles_of_compile hcompile
    have hguarded := hcompiles.guarded
    have hquotient : compiled.sql.Within (.arith .div l r) ∧ Sql.GuardedIn parent (.arith .div l r) := by
      generalize hy : Sql.arith .div l r = y at hholds
      cases hholds with
      | whole => exact ⟨.self, hguarded.whole⟩
      | part hwithin hmem => exact ⟨hwithin.trans (.step hmem .self), hguarded.parts _ hwithin _ hmem⟩
    rcases hquotient.2 l r rfl with ⟨v, rfl, hclass, hzero⟩ | hcase
    · have hstands : compiled.sql.Within (.literal v) := hquotient.1.trans (.step (by simp [Sql.children]) .self)
      exact .inl ⟨v, rfl, isDivisor_of_machine hclass (hcompiles.machineNumbers hwords _ hstands) hzero⟩
    · exact .inr hcase
  · intro pos num den v hwithin hden hv hnum
    cases hcompile : tree.compile c with
    | error faults => exact ⟨faults, rfl⟩
    | ok compiled =>
      obtain ⟨place, hstands⟩ := Tree.stands_of_within hwithin {}
      have hnode := Compiles.stands hstands (compiles_of_compile hcompile).1 rfl
      cases hnum.symm.trans (hnode.null_of_zero hden hv)

/-- A quotient that is divided by, and a divisor that comes to negative zero inside a sum. -/
theorem Tree.divisors_nested :
    let score : Tree := .column 0 "score"
    let tree : Tree := .arith 0 .div (.call 0 "sum" [score]) (.arith 0 .div score (.constant 0 (.int 2)))
    let num : Sql := .cast (.func "sum" [.column "scores" "score"]) .float
    let half : Sql := .arith .div (.cast (.column "scores" "score") .float) (.literal (.int 2))
    let sql : Sql := .case [(.compare .eq half (.literal (.int 0)), .null)] (some (.arith .div num (.cast half .float)))
    let zero : Tree := .neg 0 (.constant 0 (.float 0))
    tree.compile scores = .ok ⟨sql, .num, true, true, false⟩ ∧
    ((∃ v, Sql.cast half .float = .literal v ∧ v.IsDivisor) ∨
      ∃ d, Sql.cast half .float = .cast d .float ∧ some sql =
        some (.case [(.compare .eq d (.literal (.int 0)), .null)] (some (.arith .div num (.cast half .float))))) ∧
    zero.constant? = some (.float (-0)) ∧
    ∃ faults, (Tree.arith 0 .add score (.arith 0 .div score zero)).compile scores = .error faults := by
  intro score tree num half sql zero
  have hcompile : tree.compile scores = .ok ⟨sql, .num, true, true, false⟩ := by rfl
  have hscore : score.Everywhere Tree.HasWord := Tree.everywhere_iff.mpr ⟨trivial, nofun⟩
  have htwo : (Tree.constant 0 (.int 2)).Everywhere Tree.HasWord := Tree.everywhere_iff.mpr ⟨rfl, nofun⟩
  have hdiv {x y : Tree} (hx : x.Everywhere Tree.HasWord) (hy : y.Everywhere Tree.HasWord) :
      (Tree.arith 0 .div x y).Everywhere Tree.HasWord :=
    Tree.everywhere_iff.mpr ⟨trivial, by simpa [Tree.children] using ⟨hx, hy⟩⟩
  have hsum : (Tree.call 0 "sum" [score]).Everywhere Tree.HasWord :=
    Tree.everywhere_iff.mpr ⟨trivial, List.forall_mem_singleton.mpr hscore⟩
  have hholds : sql.Holds (some sql) (.arith .div num (.cast half .float)) := .part .self (by simp [sql, Sql.children])
  refine ⟨hcompile, (Tree.divisors scores tree).1 _ hcompile (hdiv hsum (hdiv hscore htwo)) _ _ _ hholds, rfl, ?_⟩
  refine (Tree.divisors scores _).2 0 score zero (.float (-0)) (.step (.tail _ (.head _)) .self) rfl ?_ rfl
  exact ⟨by decide +kernel, by decide +kernel⟩

end ShelfQuery.Expression
