import ShelfQuery.Recipe.Filter
import ShelfQuery.Recipe.Query
import ShelfQuery.Shelf.Basic

set_option autoImplicit false

namespace ShelfQuery

open Data in
/-- Automatic filters are kept in the order of their keys. -/
structure Recipe where
  dimensions : List String := []
  metrics : List String := []
  filters : List String := []
  automatic : List (String × Json) := []
  orderBy : List String := []
  limit : Nat := 0
  offset : Nat := 0
  source : Option String := none
  anonymize : Bool := false

end ShelfQuery

namespace ShelfQuery.Recipe

open ShelfQuery.Shelf ShelfQuery.Sql ShelfQuery.Schema ShelfQuery.Data ShelfQuery.Expression ShelfQuery.Calendar

def addNew (known : List String) : List String → List String
  | [] => known
  | item :: rest => addNew (if known.contains item then known else known ++ [item]) rest

def addDimensions (r : Recipe) (ids : List String) : Recipe := { r with dimensions := addNew r.dimensions ids }

def addMetrics (r : Recipe) (ids : List String) : Recipe := { r with metrics := addNew r.metrics ids }

def addFilters (r : Recipe) (filters : List String) : Recipe := { r with filters := addNew r.filters filters }

def addAutomatic (r : Recipe) (filters : List (String × Json)) : Recipe :=
  { r with automatic := Json.sortMembers (r.automatic ++ filters) }

def addOrder (r : Recipe) (keys : List String) : Recipe := { r with orderBy := addNew r.orderBy keys }

section

variable {m : Type → Type} [Monad m] [MonadExceptOf RecipeError m] (find : String → List Kind → m Ingredient)

/-- The condition that a filter names, and whether it is aggregated. A filter is the id of a filter
or having, or else an expression of its own. -/
def resolveFilterWith (parse : String → Options → m Field) (d : Definition) (filter : String) : m (Sql × Bool) :=
  if (d.find? filter).isSome then do
    let i ← find filter [.filter, .having]
    return (i.value.sql, i.kind == .having || i.value.aggregate)
  else if isIdentifier filter then throw (.badRecipe (.missing filter))
  else do
    let f ← parse filter plainOptions
    if f.datatype ≠ .bool then throw (.badRecipe (.notBoolean filter)) else return (f.sql, f.aggregate)

def resolveAutomaticWith (now : DateTime) (filter : String × Json) : m Sql := do
  let (id, operator) := splitFilterKey filter.1
  let i ← find id [.dimension]
  match buildFilter i now operator filter.2 with
  | .ok sql => return sql
  | .error e => throw (.badFilter e)

end

def resolveFilter (s : Shelf) : String → Except RecipeError (Sql × Bool) := resolveFilterWith s.find s.parse s.definition

def resolveAutomatic (s : Shelf) : String × Json → Except RecipeError Sql := resolveAutomaticWith s.find s.bench.now

def dropRepeated (setting : Setting) : (seen : List String) → List Sql → List Sql
  | _, [] => []
  | seen, sql :: rest =>
    let text := sql.renderConjunct setting
    if seen.contains text then dropRepeated setting seen rest else sql :: dropRepeated setting (text :: seen) rest

def dimensionColumns (i : Ingredient) : List (String × Sql) := i.roles.map fun (role, f) => (role.label i.id, f.sql)

def addKey (keys : List SortKey) (key : SortKey) : List SortKey :=
  if keys.any fun k => k.label == key.label then keys else keys ++ [key]

def namedKey? (used : List Ingredient) (key : String) : Option SortKey :=
  let (id, forced) := match key.toList with
    | '-' :: id => (String.ofList id, true)
    | _ => (key, false)
  (used.find? fun i => i.id == id).map fun i =>
    ⟨i.sortRole.label i.id, forced || i.ordering == .descending⟩

def declaredKey? (i : Ingredient) : Option SortKey :=
  i.orderByField.map fun _ => ⟨Role.orderBy.label i.id, i.ordering == .descending⟩

/-- The keys asked for, then those of the ingredients that declare an order; each label once. -/
def sortKeys (asked : List String) (used : List Ingredient) : List SortKey :=
  (asked.filterMap (namedKey? used) ++ used.filterMap declaredKey?).foldl addKey []

def assemble (r : Recipe) (w : Workbench) (dimensions metrics : List Ingredient) (conditions : List (Sql × Bool))
    (automatic : List Sql) : Query :=
  let plain : Setting := ⟨w.dialect, []⟩
  let grouped := dimensions.flatMap dimensionColumns
  let used := dimensions ++ metrics
  { dialect := w.dialect
    source := r.source.getD w.schema.name
    columns := grouped ++ metrics.map fun i => (i.id, i.value.sql)
    groupBy := grouped.map Prod.fst
    filters := dropRepeated plain [] ((conditions.filter (!·.2)).map Prod.fst ++ automatic)
    havings := dropRepeated plain [] ((conditions.filter (·.2)).map Prod.fst)
    orderBy := sortKeys r.orderBy used
    limit := r.limit
    offset := r.offset
    ingredients := used }

def queryWith {m : Type → Type} [Monad m] [MonadExceptOf RecipeError m] (find : String → List Kind → m Ingredient)
    (parse : String → Options → m Field) (w : Workbench) (d : Definition) (r : Recipe) : m Query :=
  if r.dimensions.isEmpty && r.metrics.isEmpty then throw (.badRecipe .noIngredients)
  else do
    let dimensions ← r.dimensions.mapM fun id => find id [.dimension]
    let metrics ← r.metrics.mapM fun id => find id [.metric]
    let conditions ← r.filters.mapM (resolveFilterWith find parse d)
    let automatic ← r.automatic.mapM (resolveAutomaticWith find w.now)
    return r.assemble w dimensions metrics conditions automatic

def query (r : Recipe) (s : Shelf) : Except RecipeError Query := queryWith s.find s.parse s.bench s.definition r

end ShelfQuery.Recipe
