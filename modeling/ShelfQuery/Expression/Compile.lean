import ShelfQuery.Expression.Fold
import ShelfQuery.Expression.Function
import ShelfQuery.Schema.Table

set_option autoImplicit false

/-!
# Compiling expressions

A fault is noted and the walk goes on with a broken value, which its surroundings pass on in silence, so that one walk
finds every fault.
-/

namespace ShelfQuery.Expression

open ShelfQuery.Sql ShelfQuery.Schema ShelfQuery.Calendar

/-- How a field is to be compiled: without aggregation, or as an aggregate; and which truncation
its date and datetime columns get. -/
structure Options where
  forbidAggregation : Bool := false
  enforceAggregation : Bool := false
  dates : Option String := none
  datetimes : Option String := none
  deriving DecidableEq

structure Context where
  schema : Table
  dialect : Dialect
  options : Options
  now : DateTime

structure Scope where
  inTotal : Bool := false
  inAggregate : Bool := false

structure Notes where
  errors : List Diagnostic := []
  aggregated : Bool := false
  forbiddenReported : Bool := false
  readsColumns : Bool := false
  readsClock : Bool := false

abbrev Walk := StateM Notes

structure Typed where
  sql : Sql
  type : ValueType

namespace ValueType

def ofDataType : DataType → ValueType
  | .bool => .bool
  | .date => .date
  | .datetime => .datetime
  | .num => .num
  | .str => .str
  | .unusable => .broken

def dataType? : ValueType → Option DataType
  | .bool => some .bool
  | .date => some .date
  | .datetime => some .datetime
  | .num => some .num
  | .str => some .str
  | _ => none

def isTemporal : ValueType → Bool
  | .date => true
  | .datetime => true
  | _ => false

def isBroken : ValueType → Bool
  | .unknown => true
  | .broken => true
  | _ => false

def compatible (a b : ValueType) : Bool :=
  a == b || a == .null || b == .null || (a.isTemporal && b.isTemporal)

end ValueType

def Typed.broken : Typed := ⟨.null, .broken⟩

def Typed.isLiteral (t : Typed) : Bool := t.sql.isLiteral

def note (d : Diagnostic) : Walk Unit := modify fun n => { n with errors := n.errors ++ [d] }

def report (fault : Fault) (pos : Nat) : Walk Unit := note (.placed fault pos)

def refuse (fault : Fault) (pos : Nat) : Walk Typed := do
  report fault pos
  return .broken

def refuseUnplaced (fault : Fault) : Walk Typed := do
  note (.unplaced fault)
  return .broken

def readClock (c : Context) : Walk DateTime := do
  modify fun n => { n with readsClock := true }
  return c.now

/-- Turns a literal that names a moment into a literal of a temporal type; anything else stays. With
`wholeDay`, a midnight moves to the end of its day. `none` when the text names no moment. -/
def coerceTemporal (c : Context) (t : Typed) (target : ValueType) (wholeDay : Bool) : Walk (Option Typed) :=
  let finish (m : DateTime) : Typed :=
    let m := if wholeDay then m.wholeDayEnd else m
    ⟨.literal (if target = .date then .date m.date else .datetime m), target⟩
  match t.sql with
  | .literal (.text s) => do
    let now ← readClock c
    match readMoment s now with
    | .ok m => return some (finish m)
    | .error cause => do
      note (.unplaced (.date cause))
      return none
  | .literal (.datetime m) => return some (finish m)
  | .literal (.date d) => return some (finish (.startOfDay d))
  | _ => return some t

def coerceIfTemporal (c : Context) (t : Typed) (target : ValueType) : Walk (Option Typed) :=
  if target.isTemporal then coerceTemporal c t target false else return some t

def namesMoment : Sql → Bool
  | .literal (.text _) => true
  | .literal (.date _) => true
  | .literal (.datetime _) => true
  | _ => false

def coercePair (c : Context) (l r : Typed) : Walk (Option (Typed × Typed)) :=
  if l.type.isTemporal && namesMoment r.sql then do
    let r ← coerceTemporal c r l.type false
    return r.map fun r => (l, r)
  else if r.type.isTemporal && namesMoment l.sql then do
    let l ← coerceTemporal c l r.type false
    return l.map fun l => (l, r)
  else return some (l, r)

def converterUnit? (converter : Option String) : Option TruncUnit :=
  converter.bind fun name =>
    match Text.splitLast? "_conv".toList name.toList with
    | some (unit, []) => TruncUnit.ofName? (String.ofList unit)
    | _ => none

def visitColumn (c : Context) (name : String) (pos : Nat) : Walk Typed :=
  match (c.schema.find? name).filter fun column => column.datatype.isUsable with
  | none => do
    report (.unknownColumn name) pos
    return ⟨.null, .unknown⟩
  | some column => do
    modify fun n => { n with readsColumns := true }
    let type := ValueType.ofDataType column.datatype
    let sql := Sql.column c.schema.name column.name
    let converter :=
      match type with
      | .date => c.options.dates
      | .datetime => c.options.datetimes
      | _ => none
    match converterUnit? converter with
    | some unit => return ⟨.dateTrunc unit sql (type == .datetime), type⟩
    | none => return ⟨sql, type⟩

def visitConstant (value : Constant) (pos : Nat) : Walk Typed :=
  match value with
  | .null => return ⟨.literal .null, .null⟩
  | .bool b => return ⟨.literal (.bool b), .bool⟩
  | .int n => return ⟨.literal (.int n), .num⟩
  | .float x =>
    if Number.Binary64.isFinite x then return ⟨.literal (.float x), .num⟩ else refuse .notFinite pos
  | .text s => return ⟨.literal (.text s), .str⟩

def checkNeg (t : Typed) (pos : Nat) : Walk Typed :=
  if t.type.isBroken then return .broken
  else
    match t.sql.literal?.bind fun l => l.number?.map fun _ => l with
    | some l => return ⟨.literal (negateLiteral l), .num⟩
    | none =>
      match t.type with
      | .num => return ⟨.neg t.sql, .num⟩
      | .null => return t
      | type => refuse (.notNegatable type) pos

def checkNot (t : Typed) (pos : Nat) : Walk Typed :=
  if t.type.isBroken then return .broken
  else if t.type ≠ .bool then refuse .notOfNonBoolean pos
  else return ⟨t.sql.negate, .bool⟩

def arithType? (op : Arith) (l r : ValueType) : Option ValueType :=
  match op, l, r with
  | _, .num, .num => some .num
  | .add, .str, .str => some .str
  | .add, .null, .num => some .num
  | .add, .null, .str => some .str
  | .add, .null, .null => some .null
  | .add, .num, .null => some .num
  | .add, .str, .null => some .str
  | _, .null, .num => some .num
  | _, .null, .null => some .num
  | _, .num, .null => some .num
  | _, _, _ => none

def asFloat (sql : Sql) : Sql := if sql.isLiteral then sql else .cast sql .float

def divide (num den : Sql) : Except Fault Sql :=
  match den with
  | .literal l =>
    if isZero l then .error .divisionByZero
    else if isOne l then .ok num
    else .ok (.arith .div (asFloat num) den)
  | _ =>
    .ok (.case [(.compare .eq den (.literal (.int 0)), .null)]
      (some (.arith .div (asFloat num) (.cast den .float))))

def arithSql (op : Arith) (type : ValueType) (l r : Sql) : Except Fault Sql :=
  match op with
  | .add => .ok (.arith (if type = .str then .concat else .add) l r)
  | .sub => .ok (.arith .sub l r)
  | .mul => .ok (.arith .mul l r)
  | .div => divide l r

def checkArith (op : Arith) (l r : Typed) (pos : Nat) : Walk Typed :=
  if l.type = .broken ∨ r.type = .broken then return .broken
  else
    match arithType? op l.type r.type with
    | none => refuse (.badOperands op l.type r.type) pos
    | some type =>
      match l.sql.literal?, r.sql.literal? with
      | some a, some b =>
        match foldArith op a b with
        | .ok l => return ⟨.literal l, type⟩
        | .error fault => refuseUnplaced fault
      | _, _ =>
        match arithSql op type l.sql r.sql with
        | .ok sql => return ⟨sql, type⟩
        | .error fault => refuseUnplaced fault

def Comparison.op : Comparison → CompareOp
  | .eq => .eq
  | .ne => .ne
  | .lt => .lt
  | .le => .le
  | .gt => .gt
  | .ge => .ge

/-- A comparison of two operands of compatible types: literals go to the right, comparison with null
asks for null, and two literals are compared at once. -/
def compareSql (op : CompareOp) (l r : Sql) : Sql :=
  let (op, l, r) := if l.isLiteral && !r.isLiteral then (op.mirror, r, l) else (op, l, r)
  if r.isNullLiteral && (op == .eq || op == .ne) then .isNull l (op == .ne)
  else
    match l.literal?, r.literal? with
    | some a, some b =>
      match foldCompare? op a b with
      | some result => .literal (.bool result)
      | none => .compare op l r
    | _, _ => .compare op l r

def checkCompare (c : Context) (op : Comparison) (l r : Typed) (pos : Nat) : Walk Typed :=
  if l.type.isBroken || r.type.isBroken then return .broken
  else do
    match ← coercePair c l r with
    | none => return .broken
    | some (l, r) =>
      if !l.type.compatible r.type then refuse (.incomparable l.type r.type) pos
      else return ⟨compareSql op.op l.sql r.sql, .bool⟩

def checkCondition (t : Typed) (pos : Nat) : Walk Bool :=
  if t.type.isBroken then return false
  else if t.type = .bool ∨ t.type = .null then return true
  else do
    report .conditionExpected pos
    return false

def wholeItem : Sql → Sql
  | .literal (.float x) =>
    match Number.Binary64.toInt? x with
    | some n => if n.natAbs < Nat.pow 10 15 then .literal (.int n) else .literal (.float x)
    | none => .literal (.float x)
  | sql => sql

def checkItems (c : Context) (type : ValueType) (pos : Nat) : List Typed → Walk (Option (List Sql))
  | [] => return some []
  | item :: rest => do
    match ← coerceIfTemporal c item type with
    | none => return none
    | some item =>
      if !type.compatible item.type then do
        report (.incomparable type item.type) pos
        return none
      else do
        let rest ← checkItems c type pos rest
        return rest.map (wholeItem item.sql :: ·)

def checkIn (c : Context) (t : Typed) (items : List Typed) (negated : Bool) (pos firstPos : Nat) :
    Walk Typed :=
  let has (type : ValueType) : Bool := items.any fun i => i.isLiteral && i.type == type
  if has .str && has .num then refuse .mixedList firstPos
  else if t.type.isBroken || items.any fun i => i.type.isBroken then return .broken
  else do
    match ← checkItems c t.type pos items with
    | none => return .broken
    | some items => return ⟨.inList t.sql items negated, .bool⟩

def checkBetween (c : Context) (t low high : Typed) (pos : Nat) : Walk Typed :=
  if t.type.isBroken || low.type.isBroken || high.type.isBroken then return .broken
  else do
    let bounds ←
      if t.type.isTemporal then do
        let low ← coerceTemporal c low t.type false
        let high ← coerceTemporal c high t.type (t.type == .datetime)
        pure (low.bind fun low => high.map fun high => (low, high))
      else pure (some (low, high))
    match bounds with
    | none => return .broken
    | some (low, high) =>
      if !t.type.compatible low.type || !t.type.compatible high.type then
        refuse (.betweenTypes t.type low.type high.type) pos
      else return ⟨.between t.sql low.sql high.sql, .bool⟩

/-- A pattern without wildcards matches anywhere. -/
def widenPattern : Sql → Sql
  | .literal (.text s) =>
    if s.toList.any fun ch => ch == '%' || ch == '_' then .literal (.text s)
    else .literal (.text ("%" ++ s ++ "%"))
  | sql => sql

def checkLike (t pattern : Typed) (ignoreCase negated : Bool) (pos : Nat) : Walk Typed :=
  if t.type.isBroken || pattern.type.isBroken then return .broken
  else if t.type ≠ .str ∨ pattern.type ≠ .str then refuse (.incomparable t.type pattern.type) pos
  else
    let right := widenPattern pattern.sql
    let sql :=
      if ignoreCase then Sql.compare .like (.func "lower" [t.sql]) (.func "lower" [right])
      else .compare .like t.sql right
    return ⟨if negated then sql.negate else sql, .bool⟩

def checkRange (c : Context) (t : Typed) (offset units : String) (pos offsetPos : Nat) : Walk Typed :=
  if t.type.isBroken then return .broken
  else if !t.type.isTemporal then refuse (.rangeOfNonTemporal offset units) pos
  else do
    let now ← readClock c
    match dateRange offset units now.date with
    | .error cause => refuse (.date cause) offsetPos
    | .ok (start, final) =>
      let (low, high) :=
        if t.type = .datetime then (Literal.datetime (.startOfDay start), Literal.datetime (.endOfDay final))
        else (Literal.date start, Literal.date final)
      return ⟨.between t.sql (.literal low) (.literal high), .bool⟩

/-- Notes an aggregation; the first one where it is forbidden is a fault. -/
def noteAggregation (c : Context) (scope : Scope) (pos : Nat) : Walk Unit := do
  modify fun n => { n with aggregated := true }
  let n ← get
  if c.options.forbidAggregation && !scope.inTotal && !n.forbiddenReported then do
    modify fun n => { n with forbiddenReported := true }
    report .forbiddenAggregation pos

def Aggregate.accepts (aggregate : Aggregate) (type : ValueType) : Bool :=
  match aggregate with
  | .min => type == .num || type == .str || type.isTemporal || type == .null
  | .max => type == .num || type == .str || type.isTemporal || type == .null
  | .count => true
  | .countDistinct => true
  | _ => type == .num || type == .null

def Aggregate.apply (aggregate : Aggregate) (arg : Typed) : Typed :=
  match aggregate with
  | .min => ⟨.func "min" [arg.sql], arg.type⟩
  | .max => ⟨.func "max" [arg.sql], arg.type⟩
  | .countDistinct => ⟨.countDistinct arg.sql, .num⟩
  | .median => ⟨.percentile 50 arg.sql, .num⟩
  | .percentile n => ⟨.percentile n arg.sql, .num⟩
  | aggregate => ⟨.func aggregate.name [arg.sql], .num⟩

def aggregateFaults (c : Context) (aggregate : Aggregate) (type : ValueType) : List Fault :=
  (match aggregate with
    | .percentile n => if percentiles.contains n then [] else [.unsupportedPercentile n]
    | _ => []) ++
  (match c.dialect, aggregate with
    | .sqlite, .percentile _ => [.percentileOnSqlite]
    | .sqlite, .median => [.medianOnSqlite]
    | _, _ => []) ++
  (if !type.isBroken && !aggregate.accepts type then [.notAggregatable type aggregate.name] else [])

def reportAll (pos : Nat) : List Fault → Walk Unit
  | [] => return
  | fault :: rest => do
    report fault pos
    reportAll pos rest

def checkAggregate (c : Context) (scope : Scope) (aggregate : Aggregate) (arg : Typed) (pos : Nat) :
    Walk Typed := do
  let faults := aggregateFaults c aggregate arg.type
  reportAll pos faults
  if arg.type.isBroken || !faults.isEmpty then return .broken
  else do
    noteAggregation c scope pos
    return aggregate.apply arg

def substrFaults (args : List (Typed × Nat)) : List Diagnostic :=
  args.zipIdx.filterMap fun ((t, pos), i) =>
    let wanted := if i = 0 then ValueType.str else .num
    if wanted.compatible t.type then none else some (.placed (.substrArgument wanted t.type) pos)

def noteAll : List Diagnostic → Walk Unit
  | [] => return
  | d :: rest => do
    note d
    noteAll rest

def checkSubstr (args : List (Typed × Nat)) : Walk Typed :=
  if args.any fun (t, _) => t.type.isBroken then return .broken
  else do
    let faults := substrFaults args
    noteAll faults
    if faults.isEmpty then return ⟨.func "substr" (args.map fun (t, _) => t.sql), .str⟩
    else return .broken

def checkDate (c : Context) (t : Typed) (pos : Nat) : Walk Typed :=
  if t.type.isBroken then return .broken
  else
    match t.sql with
    | .literal (.text s) => do
      let now ← readClock c
      match readMoment s now with
      | .ok m => return ⟨.literal (.datetime m), .date⟩
      | .error cause => refuseUnplaced (.date cause)
    | sql =>
      match t.type with
      | .date => return t
      | .datetime => return ⟨.dateTrunc .day sql true, .date⟩
      | type => refuse (.dateArgument type) pos

def checkTrunc (unit : TruncUnit) (name : String) (t : Typed) (pos : Nat) : Walk Typed :=
  if t.type.isBroken then return .broken
  else if !t.type.isTemporal then refuse (.truncArgument name t.type) pos
  else return ⟨.dateTrunc unit t.sql (t.type == .datetime), .date⟩

def checkValueType (first : Option ValueType) (t : Typed) (pos : Nat) : Walk (Option ValueType × Bool) :=
  if t.type.isBroken then return (first, false)
  else if t.type = .null then return (first, true)
  else
    match first with
    | none => return (some t.type, true)
    | some type =>
      if type.compatible t.type then return (first, true)
      else do
        report (.ifTypes type t.type) pos
        return (first, false)

/-- What has been read of a conditional: its branches, its last value, the type of its values, and
whether all is well so far. -/
structure Branches where
  whens : List (Sql × Typed) := []
  otherwise : Option Typed := none
  type : Option ValueType := none
  sound : Bool := true

def finishWhens (c : Context) (type : ValueType) : List (Sql × Typed) → Walk (Option (List (Sql × Sql)))
  | [] => return some []
  | (condition, value) :: rest => do
    match ← coerceIfTemporal c value type with
    | none => return none
    | some value => do
      let rest ← finishWhens c type rest
      return rest.map ((condition, value.sql) :: ·)

/-- Brings all values of a conditional to its type. A last value that is null is left out. -/
def finishIf (c : Context) (b : Branches) : Walk Typed :=
  if !b.sound then return .broken
  else do
    let type := b.type.getD .null
    match ← finishWhens c type b.whens with
    | none => return .broken
    | some whens =>
      match b.otherwise with
      | none => return ⟨.case whens none, type⟩
      | some value =>
        if value.sql.isNullLiteral then return ⟨.case whens none, type⟩
        else do
          match ← coerceIfTemporal c value type with
          | none => return .broken
          | some value => return ⟨.case whens (some value.sql), type⟩

def checkCoalesced (c : Context) (type : ValueType) : List (Typed × Nat) → Walk (Option (List Sql))
  | [] => return some []
  | (t, pos) :: rest => do
    match ← coerceIfTemporal c t type with
    | none => return none
    | some t =>
      if !type.compatible t.type then do
        report (.coalesceTypes type t.type) pos
        return none
      else do
        let rest ← checkCoalesced c type rest
        return rest.map (t.sql :: ·)

def checkCoalesce (c : Context) (args : List (Typed × Nat)) : Walk Typed :=
  if args.any fun (t, _) => t.type.isBroken then return .broken
  else do
    let type := ((args.map fun (t, _) => t.type).find? (· ≠ .null)).getD .null
    match ← checkCoalesced c type args with
    | none => return .broken
    | some args => return ⟨.func "coalesce" args, type⟩

/-- The least and the most arguments of a scalar function; `if` and `coalesce`, which have no most, are counted apart. -/
def Scalar.arity : Scalar → Nat × Nat
  | .substr => (2, 3)
  | _ => (1, 1)

def isStar : Tree → Bool
  | .star _ => true
  | _ => false

mutual

def visit (c : Context) (scope : Scope) : Tree → Walk Typed
  | .column pos name => visitColumn c name pos
  | .constant pos value => visitConstant value pos
  | .star pos => refuse .misplacedStar pos
  | .neg _ arg => do
    let t ← visit c scope arg
    checkNeg t arg.pos
  | .not pos arg => do
    let t ← visit c scope arg
    checkNot t pos
  | .arith _ op left right => do
    let l ← visit c scope left
    let r ← visit c scope right
    checkArith op l r left.pos
  | .compare _ op left right => do
    let l ← visit c scope left
    let r ← visit c scope right
    checkCompare c op l r left.pos
  | .and _ left right => do
    let l ← visit c scope left
    let lSound ← checkCondition l left.pos
    let r ← visit c scope right
    let rSound ← checkCondition r right.pos
    if lSound && rSound then return ⟨.allOf [l.sql, r.sql], .bool⟩ else return .broken
  | .or _ left right => do
    let l ← visit c scope left
    let lSound ← checkCondition l left.pos
    let r ← visit c scope right
    let rSound ← checkCondition r right.pos
    if lSound && rSound then return ⟨.anyOf [l.sql, r.sql], .bool⟩ else return .broken
  | .inList _ arg items negated => do
    let t ← visit c scope arg
    if t.isLiteral && !t.type.isBroken then refuse .expressionExpected arg.pos
    else do
      let visited ← visitAll c scope items
      checkIn c t visited negated arg.pos ((items.head?.map Tree.pos).getD arg.pos)
  | .between _ arg low high => do
    let t ← visit c scope arg
    let low ← visit c scope low
    let high ← visit c scope high
    checkBetween c t low high arg.pos
  | .like _ arg pattern ignoreCase negated => do
    let t ← visit c scope arg
    let p ← visit c scope pattern
    checkLike t p ignoreCase negated arg.pos
  | .isNull _ arg negated => do
    let t ← visit c scope arg
    if t.type.isBroken then return .broken else return ⟨.isNull t.sql negated, .bool⟩
  | .isRange _ arg offset units offsetPos => do
    let t ← visit c scope arg
    checkRange c t offset units arg.pos offsetPos
  | .call pos name args =>
    match Function.ofName? name with
    | none => refuse (.unknownFunction name) pos
    | some (.aggregate aggregate) =>
      if args.length ≠ 1 then refuse (.aggregateArity aggregate.name) pos
      else if scope.inAggregate then refuse .nestedAggregation pos
      else if args.any isStar then
        if aggregate ≠ .count then refuse .misplacedStar ((args.head?.map Tree.pos).getD pos)
        else do
          modify fun n => { n with readsColumns := true }
          noteAggregation c scope pos
          return ⟨.func "count" [.star], .num⟩
      else do
        let visited ← visitAll c { scope with inAggregate := true } args
        checkAggregate c scope aggregate (visited.headD .broken) pos
    | some (.scalar .if) =>
      if args.length < 2 then refuse .ifArity pos
      else do
        let b ← visitBranches c scope {} args
        finishIf c b
    | some (.scalar .coalesce) =>
      if args.isEmpty then refuse .coalesceArity pos
      else do
        let visited ← visitAll c scope args
        checkCoalesce c (visited.zip (args.map Tree.pos))
    | some (.scalar scalar) =>
      let (least, most) := scalar.arity
      if args.length < least ∨ most < args.length then
        refuse (.arity (Text.lower name) least most) pos
      else do
        let visited ← visitAll c scope args
        let t := visited.headD .broken
        let argPos := (args.head?.map Tree.pos).getD pos
        match scalar with
        | .substr => checkSubstr (visited.zip (args.map Tree.pos))
        | .string => if t.type.isBroken then return .broken else return ⟨.cast t.sql .varchar, .str⟩
        | .int => if t.type.isBroken then return .broken else return ⟨.cast t.sql .integer, .num⟩
        | .trunc unit => checkTrunc unit (Text.lower name) t argPos
        | _ => checkDate c t argPos
  | .total _ arg => do
    let before ← get
    let t ← visit c ⟨true, false⟩ arg
    modify fun n => { n with aggregated := before.aggregated }
    if t.type.isBroken then return .broken else return ⟨.total c.schema.name t.sql, t.type⟩

def visitAll (c : Context) (scope : Scope) : List Tree → Walk (List Typed)
  | [] => return []
  | arg :: rest => do
    let t ← visit c scope arg
    let ts ← visitAll c scope rest
    return t :: ts

def visitBranches (c : Context) (scope : Scope) (b : Branches) : List Tree → Walk Branches
  | [] => return b
  | [value] => do
    let v ← visit c scope value
    let (type, sound) ← checkValueType b.type v value.pos
    return { b with otherwise := some v, type, sound := b.sound && sound }
  | condition :: value :: rest => do
    let t ← visit c scope condition
    let conditionSound ←
      if t.type.isBroken then pure false
      else if t.type ≠ .bool then do
        report .conditionExpected condition.pos
        pure false
      else pure true
    let v ← visit c scope value
    let (type, valueSound) ← checkValueType b.type v value.pos
    visitBranches c scope
      { b with whens := b.whens ++ [(t.sql, v)], type, sound := b.sound && conditionSound && valueSound } rest

end

structure Compiled where
  sql : Sql
  type : ValueType
  aggregated : Bool
  readsColumns : Bool
  readsClock : Bool

def Tree.compile (c : Context) (tree : Tree) : Except (List Diagnostic) Compiled :=
  let (t, notes) := (visit c {} tree).run {}
  if notes.errors.isEmpty then
    .ok ⟨t.sql, t.type, notes.aggregated, notes.readsColumns, notes.readsClock⟩
  else .error notes.errors

end ShelfQuery.Expression
