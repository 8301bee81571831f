import ShelfQuery.Proofs.Compiler.NullConstant
import ShelfQuery.Proofs.Number.Nearest
import ShelfQuery.Proofs.Sql.Semantics

set_option autoImplicit false

/-!
# What expressions mean

`Tree.eval` is the value of an elementary tree on a row, with exact numbers. `Tree.foldsExactly` says that none of the
doubles that folding computes is rounded.
-/

namespace ShelfQuery.Sql

namespace Value

def truth : Value → Option Bool
  | .num x => some (x != 0)
  | _ => none

def negate : Value → Value
  | .num x => .num (-x)
  | _ => .null

def compare? : Value → Value → Option Ordering
  | .num x, .num y => some (compare x y)
  | .text s, .text t => some (Expression.compareTexts s t)
  | _, _ => none

def choose : List Value → Value
  | [] => .null
  | [v] => v
  | condition :: v :: rest => if condition.truth = some true then v else choose rest

end Value

def CompareOp.exact (op : CompareOp) (a b : Value) : Option Bool := (a.compare? b).bind (Expression.holdsFor op)

end ShelfQuery.Sql

namespace ShelfQuery.Expression

open ShelfQuery.Sql ShelfQuery.Schema ShelfQuery.Number
open ShelfQuery.Engine (allTrue anyTrue notTrue)

/-- Null unless both are numbers, or texts to be joined; null also where the divisor is zero. -/
def Arith.exact (op : Arith) : Value → Value → Value
  | .num x, .num y =>
    match op with
    | .add => .num (x + y)
    | .sub => .num (x - y)
    | .mul => .num (x * y)
    | .div => if y = 0 then .null else .num (x / y)
  | .text s, .text t => if op = .add then .text (s ++ t) else .null
  | _, _ => .null

def Comparison.isEquality (op : Comparison) : Bool := op = .eq || op = .ne

/-- Equality to an operand that is known to be null asks whether the other operand is null. -/
def Comparison.holds (op : Comparison) (leftNull rightNull : Bool) (a b : Value) : Option Bool :=
  if op.isEquality && (leftNull || rightNull) then some ((if leftNull then b else a).isNull == (op == .eq))
  else op.op.exact a b

mutual

def Tree.eval (schema : Table) (row : Row) : Tree → Value
  | .column _ name =>
    match schema.find? name with
    | some column => row column.name
    | none => .null
  | .constant _ value => value.literal.value
  | .neg _ arg => (arg.eval schema row).negate
  | .not _ arg => .ofTruth (notTrue (arg.eval schema row).truth)
  | .arith _ op left right => op.exact (left.eval schema row) (right.eval schema row)
  | .compare _ op left right =>
    .ofTruth (op.holds left.foldsToNull right.foldsToNull (left.eval schema row) (right.eval schema row))
  | .and _ left right => .ofTruth (allTrue [(left.eval schema row).truth, (right.eval schema row).truth])
  | .or _ left right => .ofTruth (anyTrue [(left.eval schema row).truth, (right.eval schema row).truth])
  | .inList _ arg items negated =>
    let found := anyTrue ((evalTrees schema row items).map (CompareOp.eq.exact (arg.eval schema row)))
    .ofTruth (if negated then notTrue found else found)
  | .between _ arg low high =>
    .ofTruth (allTrue [CompareOp.ge.exact (arg.eval schema row) (low.eval schema row),
      CompareOp.le.exact (arg.eval schema row) (high.eval schema row)])
  | .isNull _ arg negated => .ofTruth (some ((arg.eval schema row).isNull != negated))
  | .call _ name args =>
    match Function.ofName? name with
    | some (.scalar .if) => .choose (evalTrees schema row args)
    | some (.scalar .coalesce) => .first (evalTrees schema row args)
    | _ => .null
  | _ => .null

def evalTrees (schema : Table) (row : Row) : List Tree → List Value
  | [] => []
  | tree :: rest => tree.eval schema row :: evalTrees schema row rest

end

theorem evalTrees_eq_map (schema : Table) (row : Row) (trees : List Tree) :
    evalTrees schema row trees = trees.map (Tree.eval schema row) := by
  induction trees with
  | nil => rfl
  | cons tree rest ih => rw [evalTrees, ih, List.map_cons]

mutual

def Tree.isElementary (schema : Table) : Tree → Bool
  | .column _ name => (schema.find? name).all fun column => !column.datatype.isTemporal
  | .constant _ _ => true
  | .neg _ arg => arg.isElementary schema
  | .not _ arg => arg.isElementary schema
  | .arith _ _ left right => left.isElementary schema && right.isElementary schema
  | .compare _ _ left right => left.isElementary schema && right.isElementary schema
  | .and _ left right => left.isElementary schema && right.isElementary schema
  | .or _ left right => left.isElementary schema && right.isElementary schema
  | .inList _ arg items _ => arg.isElementary schema && areElementary schema items
  | .between _ arg low high => arg.isElementary schema && low.isElementary schema && high.isElementary schema
  | .isNull _ arg _ => arg.isElementary schema
  | .call _ name args =>
    match Function.ofName? name with
    | some (.scalar .if) => areElementary schema args
    | some (.scalar .coalesce) => areElementary schema args
    | _ => false
  | _ => false

def areElementary (schema : Table) : List Tree → Bool
  | [] => true
  | tree :: rest => tree.isElementary schema && areElementary schema rest

end

def isUnrounded (l : Literal) (exact : Value) : Bool :=
  match l with
  | .float x => Value.num (Binary64.value x) = exact
  | _ => true

def negatesExactly (l : Literal) : Bool := isUnrounded (negateLiteral l) l.value.negate

def calculatesExactly (op : Arith) (a b : Literal) : Bool :=
  match foldArith op a b with
  | .ok v => isUnrounded v (op.exact a.value b.value)
  | .error _ => true

/-- Two numbers are in the order in which their doubles are. -/
def comparesExactly (a b : Literal) : Bool :=
  match a.number?, b.number? with
  | some x, some y => compareFloats x y = a.value.compare? b.value
  | _, _ => true

mutual

/-- Doubles do not round the constants of a tree, and no null is asked to be equal to a constant on its
right. -/
def Tree.foldsExactly : Tree → Bool
  | .neg _ arg => arg.foldsExactly && arg.constant?.all negatesExactly
  | .not _ arg => arg.foldsExactly
  | .arith _ op left right =>
    left.foldsExactly && right.foldsExactly &&
      left.constant?.all fun a => right.constant?.all fun b => calculatesExactly op a b
  | .compare _ op left right =>
    left.foldsExactly && right.foldsExactly &&
      (left.constant?.all fun a => right.constant?.all fun b => comparesExactly a b) &&
      !(op.isEquality && left.foldsToNull && right.constant?.isSome)
  | .and _ left right => left.foldsExactly && right.foldsExactly
  | .or _ left right => left.foldsExactly && right.foldsExactly
  | .inList _ arg items _ => arg.foldsExactly && foldExactly items
  | .between _ arg low high => arg.foldsExactly && low.foldsExactly && high.foldsExactly
  | .isNull _ arg _ => arg.foldsExactly
  | .call _ _ args => foldExactly args
  | _ => true

def foldExactly : List Tree → Bool
  | [] => true
  | tree :: rest => tree.foldsExactly && foldExactly rest

end

theorem areElementary_iff {schema : Table} {trees : List Tree} :
    areElementary schema trees = true ↔ ∀ tree ∈ trees, tree.isElementary schema = true := by
  induction trees with
  | nil => simp [areElementary]
  | cons tree rest ih => simp [areElementary, ih]

theorem foldExactly_iff {trees : List Tree} : foldExactly trees = true ↔ ∀ tree ∈ trees, tree.foldsExactly = true := by
  induction trees with
  | nil => simp [foldExactly]
  | cons tree rest ih => simp [foldExactly, ih]

theorem value_of_isUnrounded {x : Float} {v : Value} (h : isUnrounded (.float x) v = true) :
    (Literal.float x).value = v := of_decide_eq_true h

theorem negateLiteral_value {l : Literal} {x : Float} (hnumber : l.number? = some x) (h : negatesExactly l = true) :
    (negateLiteral l).value = l.value.negate := by
  cases l with
  | int n =>
    simp only [negatesExactly, negateLiteral, wordOr] at h ⊢
    split
    · simp [Literal.value, Value.negate]
    · next hfits =>
      rw [if_neg hfits] at h
      exact value_of_isUnrounded h
  | float x => simp [negateLiteral, Literal.value, Value.negate, Binary64.value_neg]
  | _ => cases hnumber

theorem isOne_value {l : Literal} (h : isOne l = true) : l.value = .num 1 := by
  have hone : Binary64.isFinite 1 = true := by decide +kernel
  have hvalue : Binary64.value 1 = 1 := by decide +kernel
  have hbeq {x : Float} (hx : (x == 1) = true) : Binary64.value x = 1 := by
    rw [← hvalue]
    exact (Binary64.beq_iff (Binary64.isFinite_of_beq hx hone) hone).mp hx
  cases l with
  | int n =>
    have hn : n = 1 := Binary64.eq_one_of_ofInt (hbeq h)
    simp [Literal.value, hn]
  | float x => exact congrArg Value.num (hbeq h)
  | _ => exact nomatch h

theorem foldNumbers_value {op : Arith} {a b : Literal} {x y : Float} (ha : a.number? = some x)
    (hb : b.number? = some y) (h : isUnrounded (foldNumbers op a b) (op.exact a.value b.value) = true) :
    (foldNumbers op a b).value = op.exact a.value b.value := by
  simp only [foldNumbers, ha, hb] at h ⊢
  split
  · next m n =>
    cases op with
    | add | sub | mul =>
      simp only [Arith.onInts?, wordOr] at h ⊢
      split
      · simp [Literal.value, Arith.exact]
      · next hfits =>
        rw [if_neg hfits] at h
        exact value_of_isUnrounded h
    | div => exact value_of_isUnrounded h
  · next hints =>
    split at h
    · exact (hints _ _ rfl rfl).elim
    · exact value_of_isUnrounded h

theorem Arith.exact_null (op : Arith) {a b : Value} (h : a = .null ∨ b = .null) : op.exact a b = .null := by
  rcases h with rfl | rfl
  · rfl
  · cases a <;> rfl

theorem number_of_class {l : Literal} (h : l.valueClass.Le .num) (hnull : l ≠ .null) :
    ∃ x q, l.number? = some x ∧ l.value = .num q := by
  cases l with
  | null => exact absurd rfl hnull
  | int | float => exact ⟨_, _, rfl, rfl⟩
  | _ => exact nomatch h

theorem text_of_literal {l : Literal} (h : l.valueClass.Le .text) (hnull : l ≠ .null)
    (hplain : l = .null ∨ plainLiteral? l = some l) : ∃ s, l = .text s :=
  text_of_class h (hplain.resolve_left hnull)

theorem Folded.value_eq {op : Arith} {a b v : Literal} {l r type : ValueType} (h : Folded op a b v)
    (htype : Operands op l r type) (ha : a.valueClass.Le l.valueClass) (hb : b.valueClass.Le r.valueClass)
    (ha' : a = .null ∨ plainLiteral? a = some a) (hb' : b = .null ∨ plainLiteral? b = some b)
    (hexact : isUnrounded v (op.exact a.value b.value) = true) : v.value = op.exact a.value b.value := by
  cases h with
  | null hnull => exact (op.exact_null (hnull.imp (congrArg Literal.value) (congrArg Literal.value))).symm
  | text x y => rfl
  | one hanull _ hone _ =>
    cases htype with
    | numbers hl _ =>
      obtain ⟨x, q, -, hq⟩ := number_of_class (ha.trans hl) hanull
      rw [hq, isOne_value hone]
      simp [Arith.exact]
  | number hanull hbnull htext _ _ =>
    cases htype with
    | numbers hl hr =>
      obtain ⟨x, -, hx, -⟩ := number_of_class (ha.trans hl) hanull
      obtain ⟨y, -, hy, -⟩ := number_of_class (hb.trans hr) hbnull
      exact foldNumbers_value hx hy hexact
    | texts hl hr =>
      obtain ⟨s, rfl⟩ := text_of_literal (ha.trans hl) hanull ha'
      obtain ⟨s', rfl⟩ := text_of_literal (hb.trans hr) hbnull hb'
      exact absurd rfl (htext s s' rfl rfl)
    | nulls => exact absurd (eq_null_of_class ha) hanull

theorem compareLiterals?_value {a b : Literal} {o : Ordering} (h : compareLiterals? a b = some o)
    (hexact : comparesExactly a b = true) : a.value.compare? b.value = some o := by
  unfold compareLiterals? at h
  split at h
  · exact h
  · next x y =>
    rw [← h]
    cases x <;> cases y <;> decide +kernel
  · unfold comparesExactly at hexact
    split at h
    · next x y hx hy =>
      simp only [hx, hy, decide_eq_true_eq] at hexact
      rw [← hexact, h]
    · exact nomatch h

theorem foldCompare?_exact {op : CompareOp} {a b : Literal} {result : Bool} (h : foldCompare? op a b = some result)
    (hexact : comparesExactly a b = true) : op.exact a.value b.value = some result := by
  obtain ⟨o, ho, hresult⟩ := Option.bind_eq_some_iff.mp h
  rw [CompareOp.exact, compareLiterals?_value ho hexact]
  exact hresult

end ShelfQuery.Expression
