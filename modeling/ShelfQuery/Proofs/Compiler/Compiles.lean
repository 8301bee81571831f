import ShelfQuery.Proofs.Compiler.Walk
import ShelfQuery.Proofs.Data.Lists

set_option autoImplicit false

/-!
# What a tree compiles to

`Compiles c scope tree t` has one rule for each way in which a tree is compiled without a fault. Arguments and items
are paired with their values by `List.zip`.
-/

namespace ShelfQuery.Expression

open ShelfQuery.Sql ShelfQuery.Schema ShelfQuery.Calendar

def moment? (c : Context) : Sql → Option DateTime
  | .literal (.text s) => (readMoment s c.now).toOption
  | .literal (.datetime m) => some m
  | .literal (.date d) => some (.startOfDay d)
  | _ => none

def momentLiteral (target : ValueType) (wholeDay : Bool) (m : DateTime) : Typed :=
  let m := if wholeDay then m.wholeDayEnd else m
  ⟨.literal (if target = .date then .date m.date else .datetime m), target⟩

/-- A value as it stands where values of type `target` are wanted. -/
inductive Brought (c : Context) (target : ValueType) (wholeDay : Bool) (t : Typed) : Typed → Prop where
  | moment {m : DateTime} : target.isTemporal = true → moment? c t.sql = some m →
      Brought c target wholeDay t (momentLiteral target wholeDay m)
  | same : (target.isTemporal = true → namesMoment t.sql = false) → Brought c target wholeDay t t

theorem Brought.eq_of_not_temporal {c : Context} {target : ValueType} {wholeDay : Bool} {t t' : Typed}
    (h : Brought c target wholeDay t t') (htarget : target.isTemporal = false) : t' = t := by
  cases h with
  | moment htemporal => exact nomatch htarget.symm.trans htemporal
  | same => rfl

/-- The operands of a comparison, of which one may be brought to the temporal type of the other. -/
inductive Paired (c : Context) (l r : Typed) : Typed → Typed → Prop where
  | right {m : DateTime} : l.type.isTemporal = true → moment? c r.sql = some m →
      Paired c l r l (momentLiteral l.type false m)
  | left {m : DateTime} : ¬ (l.type.isTemporal = true ∧ namesMoment r.sql = true) → r.type.isTemporal = true →
      moment? c l.sql = some m → Paired c l r (momentLiteral r.type false m) r
  | same : ¬ (l.type.isTemporal = true ∧ namesMoment r.sql = true) →
      ¬ (r.type.isTemporal = true ∧ namesMoment l.sql = true) → Paired c l r l r

/-- A value among values that share a type, which is null only if all are null. -/
def Fits (type : ValueType) (t : Typed) : Prop :=
  t.type = .null ∨ type ≠ .null ∧ type.compatible t.type = true

def decidingType (ts : List Typed) : Option ValueType := (ts.map Typed.type).find? (· ≠ .null)

def commonType (ts : List Typed) : ValueType := (decidingType ts).getD .null

def branchValues : List Typed → List Typed
  | [] => []
  | [v] => [v]
  | _ :: v :: rest => v :: branchValues rest

/-- The branches of a conditional: conditions and values in turn, and a last value that is left out
if it is null. -/
inductive Branched (c : Context) (type : ValueType) : List Typed → List (Sql × Sql) → Option Sql → Prop where
  | done : Branched c type [] [] none
  | otherwise {v v' : Typed} : Fits type v → v.sql.isNullLiteral = false → Brought c type false v v' →
      Branched c type [v] [] (some v'.sql)
  | otherwiseNull {v : Typed} : Fits type v → v.sql.isNullLiteral = true → Branched c type [v] [] none
  | when {condition v v' : Typed} {rest : List Typed} {whens : List (Sql × Sql)} {otherwise : Option Sql} :
      condition.type = .bool → Fits type v → Brought c type false v v' → Branched c type rest whens otherwise →
      Branched c type (condition :: v :: rest) ((condition.sql, v'.sql) :: whens) otherwise

def mixesKinds (ts : List Typed) : Bool :=
  (ts.any fun t => t.isLiteral && t.type == .str) && ts.any fun t => t.isLiteral && t.type == .num

def Constant.literal : Constant → Literal
  | .null => .null
  | .bool b => .bool b
  | .int n => .int n
  | .float x => .float x
  | .text s => .text s

def Constant.type : Constant → ValueType
  | .null => .null
  | .bool _ => .bool
  | .int _ => .num
  | .float _ => .num
  | .text _ => .str

def Context.truncation? (c : Context) (type : ValueType) : Option TruncUnit :=
  converterUnit?
    (match type with
      | .date => c.options.dates
      | .datetime => c.options.datetimes
      | _ => none)

def ValueType.isCondition (type : ValueType) : Prop := type = .bool ∨ type = .null

inductive Compiles (c : Context) : Scope → Tree → Typed → Prop where
  | column {scope pos name column} : c.schema.find? name = some column → column.datatype.isUsable = true →
      c.truncation? (.ofDataType column.datatype) = none →
      Compiles c scope (.column pos name) ⟨.column c.schema.name column.name, .ofDataType column.datatype⟩
  | columnTrunc {scope pos name column unit} : c.schema.find? name = some column →
      column.datatype.isUsable = true → c.truncation? (.ofDataType column.datatype) = some unit →
      Compiles c scope (.column pos name)
        ⟨.dateTrunc unit (.column c.schema.name column.name) (ValueType.ofDataType column.datatype == .datetime),
          .ofDataType column.datatype⟩
  | constant {scope pos value} : isFiniteLiteral value.literal = true →
      Compiles c scope (.constant pos value) ⟨.literal value.literal, value.type⟩
  | negLiteral {scope pos arg t l x} : Compiles c scope arg t → t.sql = .literal l → l.number? = some x →
      Compiles c scope (.neg pos arg) ⟨.literal (negateLiteral l), .num⟩
  | neg {scope pos arg t} : Compiles c scope arg t → (∀ l, t.sql = .literal l → l.number? = none) →
      t.type = .num → Compiles c scope (.neg pos arg) ⟨.neg t.sql, .num⟩
  | negNull {scope pos arg t} : Compiles c scope arg t → (∀ l, t.sql = .literal l → l.number? = none) →
      t.type = .null → Compiles c scope (.neg pos arg) t
  | not {scope pos arg t} : Compiles c scope arg t → t.type = .bool →
      Compiles c scope (.not pos arg) ⟨t.sql.negate, .bool⟩
  | arithFold {scope pos op left right l r type a b v} : Compiles c scope left l → Compiles c scope right r →
      arithType? op l.type r.type = some type → l.sql = .literal a → r.sql = .literal b →
      foldArith op a b = .ok v → Compiles c scope (.arith pos op left right) ⟨.literal v, type⟩
  | arith {scope pos op left right l r type sql} : Compiles c scope left l → Compiles c scope right r →
      arithType? op l.type r.type = some type → (l.sql.isLiteral && r.sql.isLiteral) = false →
      arithSql op type l.sql r.sql = .ok sql → Compiles c scope (.arith pos op left right) ⟨sql, type⟩
  | compare {scope pos op left right l r l' r'} : Compiles c scope left l → Compiles c scope right r →
      Paired c l r l' r' → l'.type.compatible r'.type = true →
      Compiles c scope (.compare pos op left right) ⟨compareSql op.op l'.sql r'.sql, .bool⟩
  | and {scope pos left right l r} : Compiles c scope left l → Compiles c scope right r →
      l.type.isCondition → r.type.isCondition →
      Compiles c scope (.and pos left right) ⟨.allOf [l.sql, r.sql], .bool⟩
  | or {scope pos left right l r} : Compiles c scope left l → Compiles c scope right r →
      l.type.isCondition → r.type.isCondition →
      Compiles c scope (.or pos left right) ⟨.anyOf [l.sql, r.sql], .bool⟩
  | inList {scope pos arg items negated t visited brought} : Compiles c scope arg t → t.sql.isLiteral = false →
      items.length = visited.length → (∀ ⦃a b⦄, (a, b) ∈ items.zip visited → Compiles c scope a b) →
      visited.length = brought.length →
      (∀ ⦃a b⦄, (a, b) ∈ visited.zip brought → Brought c t.type false a b ∧ t.type.compatible b.type = true) →
      mixesKinds visited = false →
      Compiles c scope (.inList pos arg items negated)
        ⟨.inList t.sql (brought.map fun b => wholeItem b.sql) negated, .bool⟩
  | between {scope pos arg low high t l h l' h'} : Compiles c scope arg t → Compiles c scope low l →
      Compiles c scope high h → Brought c t.type false l l' → Brought c t.type (t.type == .datetime) h h' →
      t.type.compatible l'.type = true → t.type.compatible h'.type = true →
      Compiles c scope (.between pos arg low high) ⟨.between t.sql l'.sql h'.sql, .bool⟩
  | like {scope pos arg pattern negated t p} : Compiles c scope arg t → Compiles c scope pattern p →
      t.type = .str → p.type = .str →
      Compiles c scope (.like pos arg pattern false negated)
        ⟨if negated then Sql.negate (.compare .like t.sql (widenPattern p.sql))
          else .compare .like t.sql (widenPattern p.sql), .bool⟩
  | ilike {scope pos arg pattern negated t p} : Compiles c scope arg t → Compiles c scope pattern p →
      t.type = .str → p.type = .str →
      Compiles c scope (.like pos arg pattern true negated)
        ⟨if negated then Sql.negate (.compare .like (.func "lower" [t.sql]) (.func "lower" [widenPattern p.sql]))
          else .compare .like (.func "lower" [t.sql]) (.func "lower" [widenPattern p.sql]), .bool⟩
  | isNull {scope pos arg negated t} : Compiles c scope arg t →
      Compiles c scope (.isNull pos arg negated) ⟨.isNull t.sql negated, .bool⟩
  | isDateRange {scope pos arg offset units offsetPos t low high} : Compiles c scope arg t → t.type = .date →
      dateRange offset units c.now.date = .ok (low, high) →
      Compiles c scope (.isRange pos arg offset units offsetPos)
        ⟨.between t.sql (.literal (.date low)) (.literal (.date high)), .bool⟩
  | isDatetimeRange {scope pos arg offset units offsetPos t low high} : Compiles c scope arg t →
      t.type = .datetime → dateRange offset units c.now.date = .ok (low, high) →
      Compiles c scope (.isRange pos arg offset units offsetPos)
        ⟨.between t.sql (.literal (.datetime (.startOfDay low))) (.literal (.datetime (.endOfDay high))), .bool⟩
  | countAll {scope pos name starPos} : Function.ofName? name = some (.aggregate .count) →
      scope.inAggregate = false → (c.options.forbidAggregation && !scope.inTotal) = false →
      Compiles c scope (.call pos name [.star starPos]) ⟨.func "count" [.star], .num⟩
  | aggregate {scope pos name aggregate arg t} : Function.ofName? name = some (.aggregate aggregate) →
      scope.inAggregate = false → (c.options.forbidAggregation && !scope.inTotal) = false →
      Compiles c { scope with inAggregate := true } arg t → aggregateFaults c aggregate t.type = [] →
      Compiles c scope (.call pos name [arg]) (aggregate.apply t)
  | cond {scope pos name args visited whens otherwise type} : Function.ofName? name = some (.scalar .if) →
      2 ≤ args.length → args.length = visited.length →
      (∀ ⦃a b⦄, (a, b) ∈ args.zip visited → Compiles c scope a b) → type = commonType (branchValues visited) →
      Branched c type visited whens otherwise → Compiles c scope (.call pos name args) ⟨.case whens otherwise, type⟩
  | coalesce {scope pos name args visited brought type} : Function.ofName? name = some (.scalar .coalesce) →
      args ≠ [] → args.length = visited.length → (∀ ⦃a b⦄, (a, b) ∈ args.zip visited → Compiles c scope a b) →
      type = commonType visited → visited.length = brought.length →
      (∀ ⦃a b⦄, (a, b) ∈ visited.zip brought → Brought c type false a b ∧ type.compatible b.type = true) →
      Compiles c scope (.call pos name args) ⟨.func "coalesce" (brought.map Typed.sql), type⟩
  | substr {scope pos name args visited} : Function.ofName? name = some (.scalar .substr) →
      2 ≤ args.length → args.length ≤ 3 → args.length = visited.length →
      (∀ ⦃a b⦄, (a, b) ∈ args.zip visited → Compiles c scope a b) →
      substrFaults (visited.zip (args.map Tree.pos)) = [] →
      Compiles c scope (.call pos name args) ⟨.func "substr" (visited.map Typed.sql), .str⟩
  | string {scope pos name arg t} : Function.ofName? name = some (.scalar .string) → Compiles c scope arg t →
      Compiles c scope (.call pos name [arg]) ⟨.cast t.sql .varchar, .str⟩
  | int {scope pos name arg t} : Function.ofName? name = some (.scalar .int) → Compiles c scope arg t →
      Compiles c scope (.call pos name [arg]) ⟨.cast t.sql .integer, .num⟩
  | trunc {scope pos name unit arg t} : Function.ofName? name = some (.scalar (.trunc unit)) →
      Compiles c scope arg t → t.type.isTemporal = true →
      Compiles c scope (.call pos name [arg]) ⟨.dateTrunc unit t.sql (t.type == .datetime), .date⟩
  | dateOfText {scope pos name arg t s m} : Function.ofName? name = some (.scalar .date) →
      Compiles c scope arg t → t.sql = .literal (.text s) → readMoment s c.now = .ok m →
      Compiles c scope (.call pos name [arg]) ⟨.literal (.datetime m), .date⟩
  | dateOfDate {scope pos name arg t} : Function.ofName? name = some (.scalar .date) →
      Compiles c scope arg t → t.type = .date → Compiles c scope (.call pos name [arg]) t
  | dateOfDatetime {scope pos name arg t} : Function.ofName? name = some (.scalar .date) →
      Compiles c scope arg t → t.type = .datetime →
      Compiles c scope (.call pos name [arg]) ⟨.dateTrunc .day t.sql true, .date⟩
  | total {scope pos arg t} : Compiles c ⟨true, false⟩ arg t →
      Compiles c scope (.total pos arg) ⟨.total c.schema.name t.sql, t.type⟩

theorem commonType_mem {ts : List Typed} (h : commonType ts ≠ .null) : ∃ t ∈ ts, t.type = commonType ts := by
  unfold commonType at h ⊢
  cases hfind : decidingType ts with
  | none =>
    rw [hfind] at h
    exact absurd rfl h
  | some type =>
    obtain ⟨t, ht, rfl⟩ := List.mem_map.mp (List.mem_of_find?_eq_some hfind)
    exact ⟨t, ht, rfl⟩

theorem mem_of_mem_branchValues {t : Typed} : ∀ {ts : List Typed}, t ∈ branchValues ts → t ∈ ts
  | [], h => h
  | [_], h => h
  | _ :: v :: rest, h => by
    rcases List.mem_cons.mp h with rfl | h
    · simp
    · exact List.mem_cons_of_mem _ (List.mem_cons_of_mem _ (mem_of_mem_branchValues h))

theorem ofDataType_not_broken {d : DataType} (h : d.isUsable = true) : (ValueType.ofDataType d).isBroken = false := by
  cases d <;> simp_all [ValueType.ofDataType, ValueType.isBroken, DataType.isUsable]

theorem arithType?_not_broken {op : Arith} {l r type : ValueType} (h : arithType? op l r = some type) :
    type.isBroken = false := by
  unfold arithType? at h
  split at h <;> cases h <;> rfl

theorem Compiles.not_broken {c : Context} {scope : Scope} {tree : Tree} {t : Typed} (h : Compiles c scope tree t) :
    t.type.isBroken = false := by
  have common {ts : List Typed} (hts : ∀ t ∈ ts, t.type.isBroken = false) : (commonType ts).isBroken = false := by
    by_cases hnull : commonType ts = .null
    · rw [hnull]; rfl
    · obtain ⟨t, ht, heq⟩ := commonType_mem hnull
      rw [← heq]
      exact hts t ht
  induction h with
  | column _ husable | columnTrunc _ husable => exact ofDataType_not_broken husable
  | constant => rename_i value _; cases value <;> rfl
  | arithFold _ _ htype | arith _ _ htype => exact arithType?_not_broken htype
  | negNull _ _ _ ih | dateOfDate _ _ _ ih | total _ ih => exact ih
  | aggregate _ _ _ _ _ ih => rename_i aggregate _ _ _ _ _ _ _; cases aggregate <;> first | exact ih | rfl
  | cond _ _ hlen _ htype _ ih =>
    rw [htype]
    refine common fun t ht => ?_
    obtain ⟨a, ha⟩ := exists_zip_of_mem hlen (mem_of_mem_branchValues ht)
    exact ih ha
  | coalesce _ _ hlen _ htype _ _ ih =>
    rw [htype]
    refine common fun t ht => ?_
    obtain ⟨a, ha⟩ := exists_zip_of_mem hlen ht
    exact ih ha
  | _ => rfl

def comparison (op : CompareOp) (l r : Sql) : Sql :=
  if r.isNullLiteral && (op == .eq || op == .ne) then .isNull l (op == .ne)
  else
    match l.literal?, r.literal? with
    | some a, some b =>
      match foldCompare? op a b with
      | some result => .literal (.bool result)
      | none => .compare op l r
    | _, _ => .compare op l r

theorem compareSql_eq (op : CompareOp) (l r : Sql) :
    compareSql op l r = if l.isLiteral && !r.isLiteral then comparison op.mirror r l else comparison op l r := by
  unfold compareSql
  by_cases hswap : (l.isLiteral && !r.isLiteral) = true
  · rw [if_pos hswap, if_pos hswap]
    rfl
  · rw [if_neg hswap, if_neg hswap]
    rfl

end ShelfQuery.Expression
