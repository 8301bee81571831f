import ShelfQuery.Recipe.Error

set_option autoImplicit false

namespace ShelfQuery.Recipe

open ShelfQuery.Shelf ShelfQuery.Sql ShelfQuery.Schema ShelfQuery.Data ShelfQuery.Calendar

def operators : List String :=
  ["eq", "ne", "lt", "lte", "gt", "gte", "is", "isnot", "like", "ilike", "quickselect", "in", "notin", "between", "and"]

/-- Splits `id__operator`; an ending that is no operator belongs to the id. -/
def splitFilterKey (key : String) : String × Option String :=
  match Text.splitLast? "__".toList key.toList with
  | some (id, operator) =>
    let operator := String.ofList operator
    if operators.contains operator then (String.ofList id, some operator) else (key, none)
  | none => (key, none)

def plainText : Json → String
  | .str s => s
  | v => v.compact

/-- The literal for a value. Texts on a date or datetime name a moment. -/
def literalOf (datatype : DataType) (now : DateTime) (v : Json) : Except FilterError Literal :=
  match v with
  | .null => .ok .null
  | .bool b => .ok (.bool b)
  | .int n => .ok (if Expression.fitsWord n then .int n else .float (Number.Binary64.ofInt n))
  | .float x => .ok (.float x)
  | .str s =>
    if datatype.isTemporal then
      match readMoment s now with
      | .ok m => .ok (if datatype = .date then .date m.date else .datetime m)
      | .error e => .error (.date e)
    else .ok (.text s)
  | v => .error (.notFilterable datatype v)

def isText : Literal → Bool
  | .text _ => true
  | _ => false

def isNullText : Literal → Bool
  | .null => true
  | _ => false

/-- The ingredient's expression, as text if it is compared with texts and is none itself. -/
def filterColumn (i : Ingredient) (texts : Bool) : Sql :=
  if texts && i.value.datatype != .str then .cast i.value.sql .varchar else i.value.sql

def quickSelect (i : Ingredient) (v : Json) : Except FilterError Sql :=
  match i.quickSelect? (plainText v) with
  | some sql => .ok sql
  | none => .error (.unknownQuickSelect (plainText v) i.id)

def comparison? : String → Option CompareOp
  | "eq" => some .eq
  | "is" => some .eq
  | "ne" => some .ne
  | "isnot" => some .ne
  | "lt" => some .lt
  | "lte" => some .le
  | "gt" => some .gt
  | "gte" => some .ge
  | _ => none

def compareWith (op : CompareOp) (column : Sql) (l : Literal) : Sql :=
  match op, isNullText l with
  | .eq, true => .isNull column false
  | .ne, true => .isNull column true
  | op, _ => .compare op column (.literal l)

def scalarFilter (i : Ingredient) (now : DateTime) (operator : String) (v : Json) : Except FilterError Sql :=
  match operator with
  | "quickselect" => quickSelect i v
  | "like" => .ok (.compare .like (filterColumn i true) (.literal (.text (plainText v))))
  | "ilike" =>
    .ok (.compare .like (.func "lower" [filterColumn i true]) (.func "lower" [.literal (.text (plainText v))]))
  | operator =>
    match literalOf i.value.datatype now v with
    | .error e => .error e
    | .ok l =>
      match comparison? operator with
      | some op => .ok (compareWith op (filterColumn i (isText l)) l)
      | none => .error (.unknownOperator operator)

def literalRank : Literal → Nat
  | .null => 0
  | .bool _ => 1
  | .int _ => 2
  | .float _ => 2
  | .text _ => 3
  | .date _ => 4
  | .datetime _ => 5

/-- Literals are ordered by kind, then by value; numbers by their value as doubles. -/
def literalOrder (a b : Literal) : Ordering :=
  match a, b with
  | .bool x, .bool y => Expression.compareBools x y
  | .text x, .text y => Expression.compareTexts x y
  | .date x, .date y => if x.before y then .lt else if y.before x then .gt else .eq
  | .datetime x, .datetime y => if x.before y then .lt else if y.before x then .gt else .eq
  | a, b =>
    match a.number?, b.number? with
    | some x, some y => (Expression.compareFloats x y).getD .eq
    | _, _ => compare (literalRank a) (literalRank b)

def sortLiterals (ls : List Literal) : List Literal := ls.mergeSort fun a b => literalOrder a b != .gt

def isNullJson : Json → Bool
  | .null => true
  | _ => false

def isCondition (v : Json) : Bool := (v.member? "operator").isSome && (v.member? "value").isSome

def conditionOf (v : Json) : Except FilterError (String × Json) :=
  match (v.member? "operator").bind Json.str? with
  | some operator => .ok (operator, (v.member? "value").getD .null)
  | none => .error .incompleteCondition

def membership (column : Sql) (hasNull : Bool) (literals : List Literal) (conditions : List Sql) : Sql :=
  let among := Sql.inList column (literals.map .literal) false
  if hasNull || !conditions.isEmpty then
    .anyOf ((if hasNull then [.isNull column false] else []) ++ (if literals.isEmpty then [] else [among]) ++ conditions)
  else if literals.isEmpty then .literal (.bool false)
  else among

def listFilter (i : Ingredient) (now : DateTime) (nested : Json → Except FilterError Sql) (operator : String)
    (vs : List Json) : Except FilterError Sql :=
  match operator with
  | "and" => do return .allOf (← vs.mapM nested)
  | "between" =>
    match vs with
    | [low, high] => do
      let low ← literalOf i.value.datatype now low
      let high ← literalOf i.value.datatype now high
      return .between (filterColumn i (isText low || isText high)) (.literal low) (.literal high)
    | _ => .error .badBounds
  | "quickselect" => do return .anyOf (← vs.mapM (quickSelect i))
  | operator =>
    if operator = "in" ∨ operator = "notin" then do
      let present := vs.filter fun v => !isNullJson v
      let literals ← (present.filter fun v => !isCondition v).mapM (literalOf i.value.datatype now)
      let literals := sortLiterals literals
      let conditions ← (present.filter isCondition).mapM nested
      let sql := membership (filterColumn i (literals.any isText)) (vs.any isNullJson) literals conditions
      return if operator = "notin" then sql.negate else sql
    else .error (.unknownOperator operator)

/-- The fuel bounds how deep conditions lie inside each other. -/
def filterWith (i : Ingredient) (now : DateTime) :
    (fuel : Nat) → (operator : Option String) → Json → Except FilterError Sql
  | 0, _, _ => .error .incompleteCondition
  | fuel + 1, operator, .arr vs =>
    let nested (v : Json) : Except FilterError Sql := do
      let (operator, value) ← conditionOf v
      filterWith i now fuel (some operator) value
    listFilter i now nested (operator.getD "in") vs
  | _ + 1, operator, v => scalarFilter i now (operator.getD "eq") v

def buildFilter (i : Ingredient) (now : DateTime) (operator : Option String) (v : Json) : Except FilterError Sql :=
  filterWith i now (v.depth + 1) operator v

end ShelfQuery.Recipe
