import ShelfQuery.Expression.Field
import ShelfQuery.Proofs.Compiler.Constant
import ShelfQuery.Proofs.Compiler.Visit
import ShelfQuery.Sql.Aggregate

set_option autoImplicit false

namespace ShelfQuery.Sql

open Sql

theorem anyAggregate_eq (items : List Sql) : anyAggregate items = items.any hasAggregate := by
  induction items with
  | nil => rfl
  | cons x rest ih => rw [anyAggregate, ih, List.any_cons]

theorem hasAggregate_of_isLiteral {x : Sql} (h : x.isLiteral = true) : x.hasAggregate = false := by
  cases x <;> first | rfl | exact nomatch h

theorem isLiteral_of_isNullLiteral {x : Sql} (h : x.isNullLiteral = true) : x.isLiteral = true := by
  cases x <;> first | rfl | exact nomatch h

theorem negate_hasAggregate (x : Sql) : x.negate.hasAggregate = x.hasAggregate := by
  have hnegated := negated_negate x
  generalize x.negate = y at hnegated
  cases hnegated <;> rfl

theorem opened_any_hasAggregate (settles : Bool) (x : Sql) :
    (x.opened settles).any hasAggregate = x.hasAggregate := by
  have hsingle (y : Sql) : [y].any hasAggregate = y.hasAggregate := by simp
  cases x with
  | and items =>
    cases settles with
    | false => exact (anyAggregate_eq items).symm
    | true => exact hsingle _
  | or items =>
    cases settles with
    | false => exact hsingle _
    | true => exact (anyAggregate_eq items).symm
  | _ => exact hsingle _

theorem parts?_any_hasAggregate {settles : Bool} {items xs : List Sql} (h : parts? settles items = some xs) :
    xs.any hasAggregate = items.any hasAggregate := by
  induction items generalizing xs with
  | nil =>
    cases h
    rfl
  | cons x rest ih =>
    unfold parts? at h
    split at h
    · next b htruth =>
      split at h
      · exact nomatch h
      · rw [ih h, truth?_eq_some htruth]
        rfl
    · obtain ⟨ys, hys, rfl⟩ := Option.map_eq_some_iff.mp h
      rw [List.any_append, opened_any_hasAggregate, ih hys, List.any_cons]

theorem combine_hasAggregate {settles : Bool} {items xs : List Sql} (h : parts? settles items = some xs) :
    (combine settles items).hasAggregate = items.any hasAggregate := by
  rw [← parts?_any_hasAggregate h, combine, h]
  rcases xs with _ | ⟨x, _ | ⟨y, rest⟩⟩
  · rfl
  · simp
  · cases settles <;> exact anyAggregate_eq (x :: y :: rest)

end ShelfQuery.Sql

namespace ShelfQuery.Expression

open ShelfQuery.Sql ShelfQuery.Schema ShelfQuery.Calendar

/-- Whether a tree calls an aggregate outside of totals and of conditions that are constant. -/
def Tree.keepsAggregate (tree : Tree) : Bool := tree.aggregatesOutside fun condition => condition.constant?.isSome

variable {c : Context} {scope : Scope}

theorem anyAggregatesOutside_eq (skips : Tree → Bool) (trees : List Tree) :
    anyAggregatesOutside skips trees = trees.any (Tree.aggregatesOutside skips) := by
  induction trees with
  | nil => rfl
  | cons tree rest ih => rw [anyAggregatesOutside, ih, List.any_cons]

theorem isLiteral_of_moment? {x : Sql} {m : DateTime} (h : moment? c x = some m) : x.isLiteral = true := by
  cases x <;> first | rfl | exact nomatch h

theorem Brought.hasAggregate_eq {target : ValueType} {wholeDay : Bool} {t t' : Typed}
    (h : Brought c target wholeDay t t') : t'.sql.hasAggregate = t.sql.hasAggregate := by
  cases h with
  | moment _ hmoment => rw [hasAggregate_of_isLiteral (isLiteral_of_moment? hmoment)]; rfl
  | same => rfl

theorem Paired.hasAggregate_eq {l r l' r' : Typed} (h : Paired c l r l' r') :
    l'.sql.hasAggregate = l.sql.hasAggregate ∧ r'.sql.hasAggregate = r.sql.hasAggregate := by
  cases h with
  | right _ hmoment => exact ⟨rfl, by rw [hasAggregate_of_isLiteral (isLiteral_of_moment? hmoment)]; rfl⟩
  | left _ _ hmoment => exact ⟨by rw [hasAggregate_of_isLiteral (isLiteral_of_moment? hmoment)]; rfl, rfl⟩
  | same => exact ⟨rfl, rfl⟩

theorem Branched.hasAggregate_eq {type : ValueType} {visited : List Typed} {whens : List (Sql × Sql)}
    {otherwise : Option Sql} (h : Branched c type visited whens otherwise) :
    (anyAggregateWhen whens || optionAggregate otherwise) = visited.any fun t => t.sql.hasAggregate := by
  induction h with
  | done => rfl
  | otherwise _ _ hbrought => simp [anyAggregateWhen, optionAggregate, hbrought.hasAggregate_eq]
  | otherwiseNull _ hnull =>
    simp [anyAggregateWhen, optionAggregate, hasAggregate_of_isLiteral (isLiteral_of_isNullLiteral hnull)]
  | when _ _ hbrought _ ih =>
    rw [List.any_cons, List.any_cons, ← ih, anyAggregateWhen, hbrought.hasAggregate_eq]
    simp only [Bool.or_assoc]

theorem isLiteral_of_literal? {x : Sql} {l : Literal} (h : x.literal? = some l) : x.isLiteral = true := by
  cases x <;> first | rfl | exact nomatch h

theorem comparison_hasAggregate (op : CompareOp) (l r : Sql) :
    (comparison op l r).hasAggregate = (l.hasAggregate || r.hasAggregate) := by
  unfold comparison
  split
  · next hnull =>
    have hr : r.isNullLiteral = true := by simp_all
    rw [hasAggregate_of_isLiteral (isLiteral_of_isNullLiteral hr), Bool.or_false]
    rfl
  · split
    · next ha hb =>
      rw [hasAggregate_of_isLiteral (isLiteral_of_literal? ha), hasAggregate_of_isLiteral (isLiteral_of_literal? hb)]
      split
      · rfl
      · rw [Sql.hasAggregate, hasAggregate_of_isLiteral (isLiteral_of_literal? ha),
          hasAggregate_of_isLiteral (isLiteral_of_literal? hb)]
    · rfl

theorem compareSql_hasAggregate (op : CompareOp) (l r : Sql) :
    (compareSql op l r).hasAggregate = (l.hasAggregate || r.hasAggregate) := by
  rw [compareSql_eq]
  split
  · rw [comparison_hasAggregate, Bool.or_comm]
  · exact comparison_hasAggregate op l r

theorem asFloat_hasAggregate (x : Sql) : (asFloat x).hasAggregate = x.hasAggregate := by
  unfold asFloat
  split <;> rfl

theorem divide_hasAggregate {num den sql : Sql} (h : divide num den = .ok sql) :
    sql.hasAggregate = (num.hasAggregate || den.hasAggregate) := by
  unfold divide at h
  split at h
  · split at h
    · exact nomatch h
    · split at h
      · cases h
        exact (Bool.or_false _).symm
      · cases h
        exact congrArg (· || false) (asFloat_hasAggregate num)
  · cases h
    simp only [Sql.hasAggregate, anyAggregateWhen, optionAggregate, Sql.null, asFloat_hasAggregate]
    cases den.hasAggregate <;> simp

theorem arithSql_hasAggregate {op : Arith} {type : ValueType} {l r sql : Sql} (h : arithSql op type l r = .ok sql) :
    sql.hasAggregate = (l.hasAggregate || r.hasAggregate) := by
  cases op with
  | add | sub | mul =>
    cases h
    rfl
  | div => exact divide_hasAggregate h

theorem wholeItem_hasAggregate (x : Sql) : (wholeItem x).hasAggregate = x.hasAggregate := by
  unfold wholeItem
  split
  · split
    · split <;> rfl
    · rfl
  · rfl

theorem widenPattern_hasAggregate (x : Sql) : (widenPattern x).hasAggregate = x.hasAggregate := by
  unfold widenPattern
  split
  · split <;> rfl
  · rfl

theorem like_hasAggregate (negated : Bool) (x pattern : Sql) :
    (if negated then Sql.negate (.compare .like x pattern) else .compare .like x pattern).hasAggregate =
      (x.hasAggregate || pattern.hasAggregate) := by
  cases negated <;> rfl

theorem lower_hasAggregate (x : Sql) : (Sql.func "lower" [x]).hasAggregate = x.hasAggregate := by
  simp [Sql.hasAggregate, anyAggregate, isAggregateName]

theorem apply_hasAggregate (aggregate : Aggregate) (t : Typed) : (aggregate.apply t).sql.hasAggregate = true := by
  cases aggregate <;> rfl

theorem combine_keeps (settles : Bool) (x y : Sql) :
    (Sql.combine settles [x, y]).hasAggregate =
      (!(plain? (Sql.combine settles [x, y])).isSome && (x.hasAggregate || y.hasAggregate)) := by
  cases hplain : plain? (Sql.combine settles [x, y]) with
  | some v =>
    rw [plain?_eq_some hplain]
    rfl
  | none =>
    cases hparts : Sql.parts? settles [x, y] with
    | none =>
      rw [Sql.combine, hparts] at hplain
      cases hplain
    | some xs =>
      rw [combine_hasAggregate hparts]
      simp

theorem keepsAggregate_arith (pos : Nat) (op : Arith) (left right : Tree) :
    (Tree.arith pos op left right).keepsAggregate = (left.keepsAggregate || right.keepsAggregate) := rfl

theorem keepsAggregate_inList (pos : Nat) (arg : Tree) (items : List Tree) (negated : Bool) :
    (Tree.inList pos arg items negated).keepsAggregate =
      (arg.keepsAggregate || items.any Tree.keepsAggregate) :=
  congrArg (arg.keepsAggregate || ·) (anyAggregatesOutside_eq _ items)

theorem keepsAggregate_scalar {pos : Nat} {name : String} {args : List Tree} {scalar : Scalar}
    (hname : Function.ofName? name = some (.scalar scalar)) :
    (Tree.call pos name args).keepsAggregate = args.any Tree.keepsAggregate := by
  simp only [Tree.keepsAggregate, Tree.aggregatesOutside, namesAggregate, hname, Bool.false_or]
  exact anyAggregatesOutside_eq _ args

theorem keepsAggregate_unary {pos : Nat} {name : String} {arg : Tree} {scalar : Scalar}
    (hname : Function.ofName? name = some (.scalar scalar)) :
    (Tree.call pos name [arg]).keepsAggregate = arg.keepsAggregate :=
  (keepsAggregate_scalar hname).trans (Bool.or_false _)

theorem keepsAggregate_aggregate {pos : Nat} {name : String} {args : List Tree} {aggregate : Aggregate}
    (hname : Function.ofName? name = some (.aggregate aggregate)) : (Tree.call pos name args).keepsAggregate = true := by
  simp only [Tree.keepsAggregate, Tree.aggregatesOutside, namesAggregate, hname, Bool.true_or]

theorem Compiles.hasAggregate_eq {tree : Tree} {t : Typed} (h : Compiles c scope tree t) :
    t.sql.hasAggregate = tree.keepsAggregate := by
  induction h with
  | column | columnTrunc | constant | total => rfl
  | negLiteral _ hl _ ih =>
    rw [hl] at ih
    exact ih
  | neg _ _ _ ih | negNull _ _ _ ih | isNull _ ih => exact ih
  | isDateRange _ _ _ ih | isDatetimeRange _ _ _ ih =>
    refine Eq.trans ?_ ih
    simp [Sql.hasAggregate]
  | not _ _ ih =>
    rw [negate_hasAggregate]
    exact ih
  | arithFold _ _ _ hl hr _ ihl ihr =>
    rw [hl] at ihl
    rw [hr] at ihr
    rw [keepsAggregate_arith, ← ihl, ← ihr]
    rfl
  | arith _ _ _ _ hsql ihl ihr =>
    rw [arithSql_hasAggregate hsql, ihl, ihr]
    rfl
  | compare _ _ hpair _ ihl ihr =>
    rw [compareSql_hasAggregate, hpair.hasAggregate_eq.1, hpair.hasAggregate_eq.2, ihl, ihr]
    rfl
  | @and scope pos left right l r hleft hright hl hr ihl ihr =>
    have hconstant := (Compiles.and hleft hright hl hr : Compiles c scope (.and pos left right) _).constant?_eq
    rw [Sql.allOf_eq] at hconstant ⊢
    rw [combine_keeps, ← hconstant, ihl, ihr]
    rfl
  | @or scope pos left right l r hleft hright hl hr ihl ihr =>
    have hconstant := (Compiles.or hleft hright hl hr : Compiles c scope (.or pos left right) _).constant?_eq
    rw [Sql.anyOf_eq] at hconstant ⊢
    rw [combine_keeps, ← hconstant, ihl, ihr]
    rfl
  | @inList _ _ _ items _ _ visited brought _ _ hlen _ hlen' hbrought _ ih ihs =>
    have hitems : anyAggregate (brought.map fun b => wholeItem b.sql) = items.any Tree.keepsAggregate := by
      rw [anyAggregate_eq, List.any_map, ← any_eq_of_zip hlen ihs]
      exact any_eq_of_zip hlen' fun a b hmem => (wholeItem_hasAggregate b.sql).trans (hbrought hmem).1.hasAggregate_eq
    rw [Sql.hasAggregate, ih, hitems, keepsAggregate_inList]
  | between _ _ _ hlow hhigh _ _ ih ihlow ihhigh =>
    rw [Sql.hasAggregate, hlow.hasAggregate_eq, hhigh.hasAggregate_eq, ih, ihlow, ihhigh]
    rfl
  | like _ _ _ _ ih ihp =>
    rw [like_hasAggregate, widenPattern_hasAggregate, ih, ihp]
    rfl
  | ilike _ _ _ _ ih ihp =>
    rw [like_hasAggregate, lower_hasAggregate, lower_hasAggregate, widenPattern_hasAggregate, ih, ihp]
    rfl
  | countAll hname => exact (keepsAggregate_aggregate hname).symm
  | aggregate hname => exact (apply_hasAggregate _ _).trans (keepsAggregate_aggregate hname).symm
  | cond hname _ hlen _ _ hbranched ih =>
    rw [Sql.hasAggregate, hbranched.hasAggregate_eq, keepsAggregate_scalar hname]
    exact any_eq_of_zip hlen ih
  | coalesce hname _ hlen _ _ hlen' hbrought ih =>
    rw [Sql.hasAggregate, anyAggregate_eq, List.any_map, keepsAggregate_scalar hname, ← any_eq_of_zip hlen ih]
    exact any_eq_of_zip hlen' fun a b hmem => (hbrought hmem).1.hasAggregate_eq
  | substr hname _ _ hlen _ _ ih =>
    rw [Sql.hasAggregate, anyAggregate_eq, List.any_map, keepsAggregate_scalar hname]
    exact any_eq_of_zip hlen ih
  | string hname _ ih | int hname _ ih | trunc hname _ _ ih | dateOfDate hname _ _ ih | dateOfDatetime hname _ _ ih =>
    rw [keepsAggregate_unary hname]
    exact ih
  | dateOfText hname _ hsql _ ih =>
    rw [hsql] at ih
    rw [keepsAggregate_unary hname]
    exact ih

structure Field.Marked (field : Field) (tree : Tree) : Prop where
  /-- No aggregate call of the SQL is missed. -/
  complete : field.sql.hasAggregate = true → field.aggregate = true
  /-- The mark is wrong exactly if every call of the tree is in a condition that is constant. -/
  wrong_iff : field.aggregate ≠ field.sql.hasAggregate ↔ tree.aggregates = true ∧ tree.keepsAggregate = false

theorem or_mono {a b a' b' : Bool} (ha : a = true → a' = true) (hb : b = true → b' = true) (h : (a || b) = true) :
    (a' || b') = true := by
  rw [Bool.or_eq_true] at h ⊢
  exact h.imp ha hb

mutual

theorem aggregates_of_outside {skips : Tree → Bool} :
    (tree : Tree) → tree.aggregatesOutside skips = true → tree.aggregates = true
  | .column _ _, h | .constant _ _, h | .star _, h | .total _ _, h => h
  | .neg _ arg, h | .not _ arg, h | .isNull _ arg _, h | .isRange _ arg _ _ _, h => aggregates_of_outside arg h
  | .arith _ _ left right, h | .compare _ _ left right, h | .like _ left right _ _, h =>
    or_mono (aggregates_of_outside left) (aggregates_of_outside right) h
  | .and _ left right, h | .or _ left right, h =>
    or_mono (aggregates_of_outside left) (aggregates_of_outside right) (Bool.and_eq_true_iff.mp h).2
  | .inList _ arg items _, h => or_mono (aggregates_of_outside arg) (anyAggregates_of_outside items) h
  | .between _ arg low high, h =>
    or_mono (or_mono (aggregates_of_outside arg) (aggregates_of_outside low)) (aggregates_of_outside high) h
  | .call _ _ args, h => or_mono id (anyAggregates_of_outside args) h

theorem anyAggregates_of_outside {skips : Tree → Bool} :
    (trees : List Tree) → anyAggregatesOutside skips trees = true → anyAggregates trees = true
  | [], h => h
  | tree :: rest, h => or_mono (aggregates_of_outside tree) (anyAggregates_of_outside rest) h

end

theorem marked_of_compile {tree : Tree} {compiled : Compiled} {datatype : DataType} (options : Options)
    (h : tree.compile c = .ok compiled) :
    (Field.aggregated options ⟨compiled.sql, datatype, compiled.aggregated⟩).Marked tree := by
  obtain ⟨hcompiles, hflag⟩ := compiles_of_compile h
  have hsql : compiled.sql.hasAggregate = tree.keepsAggregate := hcompiles.hasAggregate_eq
  have hkeeps : tree.keepsAggregate = true → tree.aggregates = true := aggregates_of_outside tree
  unfold Field.aggregated
  split
  · next hsum =>
    -- A sum is put around what does not aggregate.
    have haggregates : tree.aggregates = false := by simp_all
    exact ⟨fun _ => rfl, by simp [haggregates, Sql.hasAggregate, isAggregateName]⟩
  · refine ⟨fun hhas => hflag ▸ hkeeps (hsql ▸ hhas), ?_⟩
    dsimp only
    rw [hflag, hsql]
    cases hk : tree.keepsAggregate with
    | false => simp
    | true => simp [hkeeps hk]

theorem compiled_of_readField {text : String} {reading : FieldReading} (h : readField c text = .ok reading) :
    ∃ tree compiled, Tree.parse text = .ok tree ∧ tree.compile c = .ok compiled ∧ reading.type = compiled.type ∧
      reading.field =
        Field.aggregated c.options ⟨compiled.sql, compiled.type.dataType?.getD .str, compiled.aggregated⟩ := by
  unfold readField at h
  split at h
  · exact nomatch h
  · next tree hparse =>
    split at h
    · exact nomatch h
    · next compiled hcompile =>
      split at h
      · cases h
        exact ⟨tree, compiled, hparse, hcompile, rfl, rfl⟩
      · exact nomatch h

/-- A field has the type that was read, also where it is summed. -/
theorem readField_wellTyped {text : String} {reading : FieldReading} (h : readField c text = .ok reading) :
    reading.type.isBroken = false ∧ reading.field.datatype = reading.type.dataType?.getD .str ∧
      reading.field.sql.WellTyped c.schema reading.type.valueClass := by
  obtain ⟨tree, compiled, -, hcompile, htype, hfield⟩ := compiled_of_readField h
  obtain ⟨hcompiles, -⟩ := compiles_of_compile hcompile
  have htyped : compiled.sql.WellTyped c.schema compiled.type.valueClass := hcompiles.wellTyped
  rw [hfield, htype]
  refine ⟨hcompiles.not_broken, ?_⟩
  unfold Field.aggregated
  split
  · next hsum =>
    have hnum : compiled.type = .num := by
      simp only [Bool.and_eq_true, beq_iff_eq] at hsum
      cases hc : compiled.type <;> simp_all [ValueType.dataType?]
    rw [hnum] at htyped ⊢
    exact ⟨rfl, .sum (by simp) htyped⟩
  · exact ⟨rfl, htyped⟩

theorem marked_of_readField {text : String} {reading : FieldReading} (h : readField c text = .ok reading) :
    ∃ tree, Tree.parse text = .ok tree ∧ reading.field.Marked tree := by
  obtain ⟨tree, compiled, hparse, hcompile, -, hfield⟩ := compiled_of_readField h
  exact ⟨tree, hparse, hfield ▸ marked_of_compile c.options hcompile⟩

structure FieldRequest where
  clock : Clock
  text : String
  options : Options

def FieldCache.after (schema : Table) (dialect : Dialect) (requests : List FieldRequest) : FieldCache :=
  requests.foldl (fun cache r => (cache.read schema dialect r.clock r.text r.options).2) {}

section

variable {P : String → Options → Field → Prop} {schema : Table} {dialect : Dialect}

def FieldCache.Holds (P : String → Options → Field → Prop) (cache : FieldCache) : Prop :=
  ∀ entry ∈ cache.entries, P entry.1.1 entry.1.2 entry.2.2

theorem FieldCache.Holds.find? {cache : FieldCache} (h : cache.Holds P) {text : String} {options : Options}
    {found : Nat × Field} (hfind : cache.find? text options = some found) : P text options found.2 := by
  obtain ⟨entry, hentry, rfl⟩ := Option.map_eq_some_iff.mp hfind
  have hkey := List.find?_some hentry
  simp only [Bool.and_eq_true, beq_iff_eq, decide_eq_true_eq] at hkey
  rw [← hkey.1, ← hkey.2]
  exact h entry (List.mem_of_find?_eq_some hentry)

variable (hP : ∀ text options now reading, readField ⟨schema, dialect, options, now⟩ text = .ok reading →
  P text options reading.field)

include hP

/-- What holds of fields that are compiled holds of the answer, and of what is kept after it. -/
theorem FieldCache.Holds.read {cache : FieldCache} (h : cache.Holds P) (clock : Clock) (text : String)
    (options : Options) :
    (cache.read schema dialect clock text options).2.Holds P ∧
      ∀ found, (cache.read schema dialect clock text options).1 = .ok found → P text options found.2 := by
  unfold FieldCache.read
  split
  · next found hfind =>
    refine ⟨h, fun found' hfound => ?_⟩
    cases hfound
    exact h.find? hfind
  · split
    · exact ⟨h, nofun⟩
    · next reading hreading =>
      have hnew := hP text options _ reading hreading
      constructor
      · intro entry hentry
        dsimp only at hentry
        split at hentry
        · rcases List.mem_cons.mp hentry with rfl | hentry
          · exact hnew
          · exact h entry hentry
        · exact h entry hentry
      · rintro found ⟨⟩
        exact hnew

theorem FieldCache.after_holds (requests : List FieldRequest) : (FieldCache.after schema dialect requests).Holds P := by
  have hrun (requests : List FieldRequest) (cache : FieldCache) (h : cache.Holds P) :
      (requests.foldl (fun cache r => (cache.read schema dialect r.clock r.text r.options).2) cache).Holds P := by
    induction requests generalizing cache with
    | nil => exact h
    | cons r rest ih => exact ih _ (h.read hP r.clock r.text r.options).1
  exact hrun requests {} fun entry hentry => nomatch hentry

theorem FieldCache.holds_of_read_after {requests : List FieldRequest} {request : FieldRequest} {n : Nat} {field : Field}
    (h : ((FieldCache.after schema dialect requests).read schema dialect request.clock request.text
      request.options).1 = .ok (n, field)) : P request.text request.options field :=
  ((FieldCache.after_holds hP requests).read hP _ _ _).2 _ h

end

/-- The mark of a field misses no aggregate call of its SQL. It is wrong exactly if the text calls
aggregates but all of them stand in conditions that are constant, and so are dropped. -/
theorem FieldCache.read_aggregate_iff (schema : Table) (dialect : Dialect) (requests : List FieldRequest)
    (request : FieldRequest) {n : Nat} {field : Field}
    (h : ((FieldCache.after schema dialect requests).read schema dialect request.clock request.text
      request.options).1 = .ok (n, field)) :
    ∃ tree, Tree.parse request.text = .ok tree ∧ (field.sql.hasAggregate = true → field.aggregate = true) ∧
      (field.aggregate ≠ field.sql.hasAggregate ↔ tree.aggregates = true ∧ tree.keepsAggregate = false) := by
  obtain ⟨tree, hparse, hmarked⟩ := FieldCache.holds_of_read_after
    (P := fun text _ field => ∃ tree, Tree.parse text = .ok tree ∧ field.Marked tree)
    (fun _ _ _ _ => marked_of_readField) h
  exact ⟨tree, hparse, hmarked.complete, hmarked.wrong_iff⟩

def FieldCache.isMismarked : Except FieldError (Nat × Field) → Bool
  | .ok (_, field) => field.aggregate != field.sql.hasAggregate
  | .error _ => false

/-- Nothing of the sum is left, and still the field counts as an aggregate. -/
theorem FieldCache.read_settled_sum :
    let schema : Table := ⟨"scores", [⟨"score", .num⟩]⟩
    let clock : Clock := .fixed (.startOfDay ⟨2024, 1, 1, by decide⟩)
    let request : FieldRequest := ⟨clock, "false AND sum([score]) > 1", {}⟩
    ∃ n field, ((FieldCache.after schema .sqlite [⟨clock, "sum([score])", {}⟩]).read schema .sqlite request.clock
        request.text request.options).1 = .ok (n, field) ∧
      field.aggregate ≠ field.sql.hasAggregate ∧
      ∃ tree, Tree.parse request.text = .ok tree ∧ tree.aggregates = true ∧ tree.keepsAggregate = false := by
  intro schema clock request
  have hmark : FieldCache.isMismarked ((FieldCache.after schema .sqlite [⟨clock, "sum([score])", {}⟩]).read schema
      .sqlite request.clock request.text request.options).1 = true := by
    decide +kernel
  cases hread : ((FieldCache.after schema .sqlite [⟨clock, "sum([score])", {}⟩]).read schema .sqlite request.clock
      request.text request.options).1 with
  | error e =>
    rw [hread] at hmark
    exact nomatch hmark
  | ok found =>
    rw [hread] at hmark
    have hwrong : found.2.aggregate ≠ found.2.sql.hasAggregate := by simpa [FieldCache.isMismarked] using hmark
    obtain ⟨tree, hparse, -, hiff⟩ := FieldCache.read_aggregate_iff schema .sqlite _ request hread
    exact ⟨found.1, found.2, rfl, hwrong, tree, hparse, hiff.mp hwrong⟩

end ShelfQuery.Expression
