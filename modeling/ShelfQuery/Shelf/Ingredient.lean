import ShelfQuery.Expression.Field
import ShelfQuery.Rows.Format
import ShelfQuery.Shelf.Reference

set_option autoImplicit false

namespace ShelfQuery.Shelf

open ShelfQuery.Expression ShelfQuery.Schema ShelfQuery.Sql ShelfQuery.Rows ShelfQuery.Calendar

inductive Role where
  | value | id | orderBy
  deriving DecidableEq

namespace Role

def suffix : Role → String
  | .value => ""
  | .id => "id"
  | .orderBy => "order_by"

def label (role : Role) (name : String) : String :=
  match role with
  | .value => name
  | role => name ++ "__" ++ role.suffix

end Role

inductive IngredientError where
  | expression (cause : FieldError)
  | reference (cause : ReferenceError)
  | badName (id : String)
  | notBoolean
  | notAggregated (kind : Kind)
  | roleNotAllowed (role : Role)
  | unknownFormat (format : String)
  | quickSelectNotBoolean (name : String)

def IngredientError.message : IngredientError → String
  | .expression cause => cause.message
  | .reference cause => cause.message
  | .badName id => id ++ " is not a valid ingredient name"
  | .notBoolean => "This should be a boolean column or expression"
  | .notAggregated kind => "A " ++ kind.name ++ " must be aggregated"
  | .roleNotAllowed role => "Only dimensions can have an " ++ role.suffix ++ "_field"
  | .unknownFormat format => "Unknown format: " ++ format
  | .quickSelectNotBoolean name => "Quickselect " ++ name ++ " should be a boolean column or expression"

structure Ingredient where
  id : String
  kind : Kind
  value : Field
  idField : Option Field
  orderByField : Option Field
  ordering : SortOrder
  format : Option Format
  quickSelects : List (String × Sql)
  anonymize : Bool
  singular : Option String
  plural : Option String
  description : Option String

structure Workbench where
  schema : Table
  dialect : Dialect
  now : DateTime

namespace Workbench

def context (w : Workbench) (options : Options) : Context := ⟨w.schema, w.dialect, options, w.now⟩

def field (w : Workbench) (text : String) (options : Options) : Except FieldError Field :=
  (readField (w.context options) text).map FieldReading.field

end Workbench

def plainOptions : Options := {}

def withoutAggregation : Options := { forbidAggregation := true }

def withAggregation : Options := { enforceAggregation := true }

def Kind.options : Kind → Options
  | .metric => withAggregation
  | .having => plainOptions
  | _ => withoutAggregation

section

variable {m : Type → Type} [Monad m] [MonadExceptOf IngredientError m] (read : String → Options → m Field)
  (d : Definition) (id : String)

def compileText (text : String) (options : Options) : m Field :=
  match expandReferences id text d with
  | .error e => throw (.reference e)
  | .ok expanded => read expanded options

/-- The declared kind; without one, an aggregated field makes a metric, any other a dimension. -/
def resolveKind (spec : Spec) : m Kind :=
  match spec.kind with
  | some kind => return kind
  | none => do
    let f ← compileText read d id spec.field plainOptions
    return if f.aggregate then .metric else .dimension

def checkKind (kind : Kind) (f : Field) : m Unit :=
  if (kind = .filter ∨ kind = .having) ∧ f.datatype ≠ .bool then throw .notBoolean
  else if (kind = .metric ∨ kind = .having) ∧ !f.aggregate then throw (.notAggregated kind)
  else return ()

def compileRole (kind : Kind) (role : Role) : Option String → m (Option Field)
  | none => return none
  | some text =>
    if kind ≠ .dimension then throw (.roleNotAllowed role)
    else do return some (← compileText read d id text withoutAggregation)

def compileFormat : Option String → m (Option Format)
  | none => return none
  | some format =>
    match Format.parse? format with
    | some f => return some f
    | none => throw (.unknownFormat format)

def compileQuickSelects : List QuickSelect → m (List (String × Sql))
  | [] => return []
  | q :: rest => do
    let f ← compileText read d id q.condition withoutAggregation
    if f.datatype ≠ .bool then throw (.quickSelectNotBoolean q.name)
    else return (q.name, f.sql) :: (← compileQuickSelects rest)

/-- Compiles an entry with fields as `read` gives them. -/
def Ingredient.compile (spec : Spec) : m Ingredient :=
  if !isIdentifier id then throw (.badName id)
  else do
    let kind ← resolveKind read d id spec
    let value ← compileText read d id spec.field kind.options
    checkKind kind value
    let idField ← compileRole read d id kind .id spec.idField
    let orderByField ← compileRole read d id kind .orderBy spec.orderByField
    let format ← compileFormat spec.format
    let quickSelects ← compileQuickSelects read d id spec.quickSelects
    return {
      id, kind, value, idField, orderByField, format, quickSelects
      ordering := spec.ordering, anonymize := spec.anonymize
      singular := spec.singular, plural := spec.plural, description := spec.description }

end

namespace Ingredient

def build (w : Workbench) (d : Definition) (id : String) (spec : Spec) : Except IngredientError Ingredient :=
  compile (fun text options => (w.field text options).mapError .expression) d id spec

def roles (i : Ingredient) : List (Role × Field) :=
  (.value, i.value) :: (i.idField.map fun f => (Role.id, f)).toList ++
    (i.orderByField.map fun f => (Role.orderBy, f)).toList

def labels (i : Ingredient) : List String := i.roles.map fun (role, _) => role.label i.id

def sortRole (i : Ingredient) : Role := if i.orderByField.isSome then .orderBy else .value

def quickSelect? (i : Ingredient) (name : String) : Option Sql :=
  (i.quickSelects.find? fun q => q.1 == name).map Prod.snd

end Ingredient

end ShelfQuery.Shelf
