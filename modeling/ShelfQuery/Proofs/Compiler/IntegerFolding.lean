import ShelfQuery.Proofs.Compiler.Exact
import ShelfQuery.Proofs.Compiler.MachineNumbers
import ShelfQuery.Proofs.Compiler.Preservation

set_option autoImplicit false

namespace ShelfQuery.Expression

open ShelfQuery.Sql ShelfQuery.Schema ShelfQuery.Number

variable {tree : Tree} {exact : Int} {a b : Literal} {l r : Typed}

namespace Tree

/-- The exact value of a tree that is built of integers by sum, difference, product and negation. -/
def integer? : Tree → Option Int
  | .constant _ (.int n) => some n
  | .neg _ arg => arg.integer?.map fun x => -x
  | .arith _ .add left right => left.integer?.bind fun x => right.integer?.map fun y => x + y
  | .arith _ .sub left right => left.integer?.bind fun x => right.integer?.map fun y => x - y
  | .arith _ .mul left right => left.integer?.bind fun x => right.integer?.map fun y => x * y
  | _ => none

/-- The exact value, where there is one, is a word. -/
def IsWord (tree : Tree) : Prop := ∀ n, tree.integer? = some n → fitsWord n = true

inductive Integral : Tree → Int → Prop where
  | constant {pos : Nat} {n : Int} : Integral (.constant pos (.int n)) n
  | neg {pos : Nat} {arg : Tree} {x : Int} : Integral arg x → Integral (.neg pos arg) (-x)
  | arith {pos : Nat} {op : Arith} {left right : Tree} {x y z : Int} : Integral left x → Integral right y →
      op.onInts? x y = some z → Integral (.arith pos op left right) z

theorem integral_of_integer? (h : tree.integer? = some exact) : Integral tree exact := by
  fun_induction integer? tree generalizing exact with
  | case1 pos n =>
    cases h
    exact .constant
  | case2 pos arg ih =>
    obtain ⟨x, hx, rfl⟩ := Option.map_eq_some_iff.mp h
    exact .neg (ih hx)
  | case3 pos left right ihl ihr | case4 pos left right ihl ihr | case5 pos left right ihl ihr =>
    obtain ⟨x, hx, h⟩ := Option.bind_eq_some_iff.mp h
    obtain ⟨y, hy, rfl⟩ := Option.map_eq_some_iff.mp h
    exact .arith (ihl hx) (ihr hy) rfl
  | case6 => cases h

theorem Integral.integer?_eq (h : Integral tree exact) : tree.integer? = some exact := by
  induction h with
  | constant => rfl
  | neg _ ih => simp [integer?, ih]
  | @arith _ op _ _ _ _ _ _ _ hop ihl ihr =>
    cases op <;> cases hop <;> simp [integer?, ihl, ihr]

theorem Integral.isWord (h : Integral tree exact) (hfits : fitsWord exact = true) : tree.IsWord := by
  intro n hn
  rw [h.integer?_eq] at hn
  cases hn
  exact hfits

/-- What the walk may give for a tree with an exact value. -/
inductive Outcome (tree : Tree) (exact : Int) : Typed → Prop where
  | exact : (tree.Everywhere HasWord → tree.Everywhere IsWord) → Outcome tree exact ⟨.literal (.int exact), .num⟩
  | rounded (x : Float) : Outcome tree exact ⟨.literal (.float x), .num⟩
  | refused : Outcome tree exact .broken

end Tree

section Steps

variable {op : Arith} {x y z : Int}

theorem foldNumbers_ints (h : op.onInts? x y = some z) :
    foldNumbers op (.int x) (.int y) = wordOr z (op.onFloats (Binary64.ofInt x) (Binary64.ofInt y)) := by
  cases op <;> cases h <;> rfl

theorem not_div_of_onInts? (h : op.onInts? x y = some z) : op ≠ .div := by
  rintro rfl
  cases h

/-- Numbers other than quotients are refused only if they are not finite. -/
theorem foldArith_numbers (hop : op ≠ .div) (ha : a.number?.isSome) (hb : b.number?.isSome) : foldArith op a b =
      if isFiniteLiteral (foldNumbers op a b) then .ok (foldNumbers op a b) else .error .notFinite := by
  cases op with
  | div => exact absurd rfl hop
  | _ => cases a <;> cases ha <;> cases b <;> cases hb <;> rfl

theorem checkArith_numbers (hop : op ≠ .div) (ha : a.number?.isSome) (hb : b.number?.isSome)
    (pos : Nat) (notes : Notes) :
    ((checkArith op ⟨.literal a, .num⟩ ⟨.literal b, .num⟩ pos).run notes).1 =
      if isFiniteLiteral (foldNumbers op a b) then ⟨.literal (foldNumbers op a b), .num⟩ else .broken := by
  have htype : arithType? op .num .num = some .num := by cases op <;> rfl
  rw [checkArith, if_neg (by simp), htype]
  simp only [Sql.literal?, foldArith_numbers hop ha hb]
  cases isFiniteLiteral (foldNumbers op a b) <;> rfl

theorem checkArith_broken (h : l = .broken ∨ r = .broken) (pos : Nat) (notes : Notes) :
    ((checkArith op l r pos).run notes).1 = .broken := by
  have hbroken : l.type = .broken ∨ r.type = .broken := h.imp (congrArg Typed.type) (congrArg Typed.type)
  rw [checkArith, if_pos hbroken]
  rfl

end Steps

namespace Tree

theorem outcome_wordOr (hexact : Integral tree exact)
    (hchildren : ∀ child ∈ tree.children, child.Everywhere HasWord → child.Everywhere IsWord) (x : Float) :
    tree.Outcome exact ⟨.literal (wordOr exact x), .num⟩ := by
  unfold wordOr
  split
  · next hfits =>
    refine .exact fun hwords => everywhere_iff.mpr ⟨hexact.isWord hfits, fun child hchild => ?_⟩
    exact hchildren child hchild (hwords.child hchild)
  · exact .rounded x

theorem outcome_neg {pos : Nat} {arg : Tree} {x : Int} {t : Typed} (hexact : Integral (.neg pos arg) (-x))
    (h : arg.Outcome x t) (place : Nat) (notes : Notes) :
    (Tree.neg pos arg).Outcome (-x) ((checkNeg t place).run notes).1 := by
  cases h with
  | exact harg => exact outcome_wordOr hexact (List.forall_mem_singleton.mpr harg) _
  | rounded x => exact .rounded _
  | refused => exact .refused

theorem outcome_rounded {op : Arith} {x : Float} (hop : op ≠ .div)
    (ha : a.number?.isSome) (hb : b.number?.isSome) (hfloat : foldNumbers op a b = .float x) (place : Nat)
    (notes : Notes) :
    tree.Outcome exact ((checkArith op ⟨.literal a, .num⟩ ⟨.literal b, .num⟩ place).run notes).1 := by
  rw [checkArith_numbers hop ha hb, hfloat]
  split
  · exact .rounded x
  · exact .refused

theorem outcome_broken {op : Arith} (h : l = .broken ∨ r = .broken)
    (place : Nat) (notes : Notes) : tree.Outcome exact ((checkArith op l r place).run notes).1 := by
  rw [checkArith_broken h]
  exact .refused

theorem outcome_arith {pos : Nat} {op : Arith} {left right : Tree} {x y z : Int}
    (hexact : Integral (.arith pos op left right) z) (hop : op.onInts? x y = some z) (hl : left.Outcome x l)
    (hr : right.Outcome y r) (place : Nat) (notes : Notes) :
    (Tree.arith pos op left right).Outcome z ((checkArith op l r place).run notes).1 := by
  have hdiv := not_div_of_onInts? hop
  cases hl with
  | refused => exact outcome_broken (.inl rfl) place notes
  | rounded u =>
    cases hr with
    | refused => exact outcome_broken (.inr rfl) place notes
    | exact | rounded => exact outcome_rounded hdiv rfl rfl rfl place notes
  | exact hleft =>
    cases hr with
    | refused => exact outcome_broken (.inr rfl) place notes
    | rounded v => exact outcome_rounded hdiv rfl rfl rfl place notes
    | exact hright =>
      rw [checkArith_numbers hdiv rfl rfl, foldNumbers_ints hop]
      split
      · refine outcome_wordOr hexact ?_ _
        simpa [children] using ⟨hleft, hright⟩
      · exact .refused

theorem Integral.outcome (h : Integral tree exact) (c : Context) (scope : Scope)
    (notes : Notes) : tree.Outcome exact ((visit c scope tree).run notes).1 := by
  induction h generalizing notes with
  | @constant pos n =>
    refine .exact fun hwords => everywhere_iff.mpr ⟨Integral.constant.isWord (hwords _ .self), ?_⟩
    exact List.forall_mem_nil _
  | neg harg ih =>
    rw [visit]
    exact outcome_neg (.neg harg) (ih notes) _ _
  | arith hl hr hop ihl ihr =>
    rw [visit]
    exact outcome_arith (.arith hl hr hop) hop (ihl notes) (ihr _) _ _

theorem Integral.compiles (h : Integral tree exact) (hfits : tree.Everywhere IsWord)
    (c : Context) (scope : Scope) : Compiles c scope tree ⟨.literal (.int exact), .num⟩ := by
  have hword {tree : Tree} {exact : Int} (h : Integral tree exact) (hfits : tree.Everywhere IsWord) (x : Float) :
      wordOr exact x = .int exact := if_pos (hfits _ .self _ h.integer?_eq)
  induction h with
  | constant => exact .constant rfl
  | @neg pos arg x harg ih =>
    have hnegated : Compiles c scope (.neg pos arg) ⟨.literal (negateLiteral (.int x)), .num⟩ :=
      .negLiteral (ih (hfits.child (.head _))) rfl rfl
    rwa [show negateLiteral (.int x) = _ from hword harg.neg hfits _] at hnegated
  | @arith pos op left right x y z hl hr hop ihl ihr =>
    have hfold : foldArith op (.int x) (.int y) = .ok (.int z) := by
      rw [foldArith_numbers (not_div_of_onInts? hop) rfl rfl, foldNumbers_ints hop, hword (.arith hl hr hop) hfits]
      rfl
    have htype : arithType? op .num .num = some .num := by cases op <;> rfl
    exact .arithFold (ihl (hfits.child (.head _))) (ihr (hfits.child (.tail _ (.head _)))) htype rfl rfl hfold

/-- A tree of integers that becomes an integer becomes its exact value, in every scope and after whatever
the walk noted before, and only if the values of its parts are words; if they are, it does become an
integer, and nothing is wrong with it. -/
theorem fold_integers {tree : Tree} {exact : Int} (hexact : tree.integer? = some exact) (c : Context) :
    (∀ scope notes n, ((visit c scope tree).run notes).1.sql = .literal (.int n) →
      n = exact ∧ (tree.Everywhere HasWord → tree.Everywhere IsWord)) ∧
    (∀ compiled n, tree.compile c = .ok compiled → compiled.sql = .literal (.int n) → n = exact) ∧
    (tree.Everywhere IsWord →
      (∀ scope, Delivers (visit c scope tree) ⟨.literal (.int exact), .num⟩) ∧
      ∃ compiled, tree.compile c = .ok compiled ∧ compiled.sql = .literal (.int exact)) := by
  have hintegral := integral_of_integer? hexact
  have hfolds (scope : Scope) (notes : Notes) (n : Int)
      (h : ((visit c scope tree).run notes).1.sql = .literal (.int n)) :
      n = exact ∧ (tree.Everywhere HasWord → tree.Everywhere IsWord) := by
    generalize ht : ((visit c scope tree).run notes).1 = t at h
    cases ht ▸ hintegral.outcome c scope notes with
    | exact hwords =>
      cases h
      exact ⟨rfl, hwords⟩
    | rounded | refused => cases h
  refine ⟨hfolds, fun compiled n hcompile hsql => ?_, fun hfits => ⟨fun scope => ?_, ?_⟩⟩
  · have hvalue := (delivers_of_compiles (compiles_of_compile hcompile).1 {}).1
    exact (hfolds {} {} n ((congrArg Typed.sql hvalue).trans hsql)).1
  · exact delivers_of_compiles (hintegral.compiles hfits c scope)
  · obtain ⟨compiled, hcompile, hsql, -⟩ := compile_of_compiles (hintegral.compiles hfits c {})
    exact ⟨compiled, hcompile, hsql⟩

/-- The first tree is folded to 9. The second one has the greatest word as its value, but a sum inside it
is no word. -/
theorem fold_integers_overflow :
    let difference : Tree := .arith 0 .sub (.constant 0 (.int 4)) (.constant 0 (.int 7))
    let small : Tree := .arith 0 .mul (.constant 0 (.int 3)) (.neg 0 difference)
    let sum : Tree := .arith 0 .add (.constant 0 (.int 9223372036854775807)) (.constant 0 (.int 1))
    let large : Tree := .arith 0 .sub sum (.constant 0 (.int 1))
    (small.integer? = some 9 ∧ ∃ compiled, small.compile scores = .ok compiled ∧ compiled.sql = .literal (.int 9)) ∧
    large.integer? = some 9223372036854775807 ∧
    ∀ scope notes n, ((visit scores scope large).run notes).1.sql ≠ .literal (.int n) := by
  intro difference small sum large
  have harith {Q : Tree → Prop} {op : Arith} {x y : Tree} (hself : Q (.arith 0 op x y)) (hx : x.Everywhere Q)
      (hy : y.Everywhere Q) : (Tree.arith 0 op x y).Everywhere Q :=
    everywhere_iff.mpr ⟨hself, by simpa [children] using ⟨hx, hy⟩⟩
  have hconstant {Q : Tree → Prop} {n : Int} (hself : Q (.constant 0 (.int n))) :
      (Tree.constant 0 (.int n)).Everywhere Q := everywhere_iff.mpr ⟨hself, List.forall_mem_nil _⟩
  have hword {x : Tree} {n : Int} (h : x.integer? = some n) (hn : fitsWord n = true) : x.IsWord :=
    (integral_of_integer? h).isWord hn
  have hsmall : small.Everywhere IsWord := by
    refine harith (hword rfl rfl) (hconstant (hword rfl rfl)) (everywhere_iff.mpr ⟨hword rfl rfl, ?_⟩)
    exact List.forall_mem_singleton.mpr (harith (hword rfl rfl) (hconstant (hword rfl rfl)) (hconstant (hword rfl rfl)))
  have hwords : large.Everywhere HasWord :=
    harith trivial (harith trivial (hconstant rfl) (hconstant rfl)) (hconstant rfl)
  refine ⟨⟨rfl, ((fold_integers rfl scores).2.2 hsmall).2⟩, rfl, fun scope notes n hn => ?_⟩
  have hsum := ((fold_integers rfl scores).1 scope notes n hn).2 hwords sum (.step (.head _) .self)
  exact absurd (hsum _ rfl) (by decide)

end Tree

end ShelfQuery.Expression
