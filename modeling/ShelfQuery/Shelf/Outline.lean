import ShelfQuery.Recipe.Query

set_option autoImplicit false

namespace ShelfQuery.Shelf

open ShelfQuery.Data ShelfQuery.Expression ShelfQuery.Rows ShelfQuery.Schema ShelfQuery.Sql

def optionalText : Option String → Json
  | some s => .str s
  | none => .null

def texts (items : List String) : Json := .arr (items.map .str)

def QuickSelect.outline (q : QuickSelect) : Json := .obj [("name", .str q.name), ("condition", .str q.condition)]

def Spec.outline (s : Spec) : Json :=
  .obj [("kind", optionalText (s.kind.map Kind.name)), ("field", .str s.field), ("id_field", optionalText s.idField),
    ("order_by_field", optionalText s.orderByField), ("ordering", .str s.ordering.name),
    ("format", optionalText s.format), ("quickselects", .arr (s.quickSelects.map QuickSelect.outline)),
    ("anonymize", .bool s.anonymize), ("singular", optionalText s.singular), ("plural", optionalText s.plural),
    ("description", optionalText s.description)]

def Entry.isBare : Entry → Bool
  | .field _ => true
  | .spec _ => false

def Definition.outline (d : Definition) : Json :=
  .obj
    [("entries", .arr (d.map fun (id, e) =>
        .obj [("id", .str id), ("bare", .bool e.isBare), ("spec", e.toSpec.outline)])),
      ("len", .int d.length), ("empty", .bool d.isEmpty)]

def fieldOutline (s : Setting) (f : Field) : List (String × Json) :=
  [("sql", .str (f.render s)), ("datatype", .str f.datatype.name), ("aggregate", .bool f.aggregate)]

def formatOutline (f : Format) : Json := .arr [.bool f.currency, .bool f.grouping, .int f.precision, .bool f.percent]

def Ingredient.outline (dialect : Dialect) (i : Ingredient) : Json :=
  let s : Setting := ⟨dialect, []⟩
  .obj
    [("id", .str i.id), ("kind", .str i.kind.name), ("selectable", .bool i.kind.isSelectable),
      ("datatype", .str i.value.datatype.name), ("aggregate", .bool i.value.aggregate),
      ("roles", .arr (i.roles.map fun (role, f) => .obj (fieldOutline s f ++ [("label", .str (role.label i.id))]))),
      ("sort", .str (i.sortRole.label i.id)), ("has_id", .bool i.idField.isSome), ("labels", texts i.labels),
      ("ordering", .str i.ordering.name), ("format", (i.format.map formatOutline).getD .null),
      ("quickselects", .arr (i.quickSelects.map fun (name, sql) => texts [name, sql.render s])),
      ("anonymize", .bool i.anonymize), ("singular", optionalText i.singular), ("plural", optionalText i.plural),
      ("description", optionalText i.description)]

end ShelfQuery.Shelf

namespace ShelfQuery.Recipe

open ShelfQuery.Data ShelfQuery.Shelf ShelfQuery.Sql

def Query.outline (q : Query) : Json :=
  let s : Setting := ⟨q.dialect, []⟩
  .obj
    [("unpaged", .str q.unpagedText), ("from", .str q.source), ("dialect", .str q.dialect.name),
      ("columns", .arr (q.columns.map fun (label, sql) => texts [label, sql.render s])),
      ("group_by", texts q.groupBy), ("filters", texts (q.filters.map (Sql.render s))),
      ("havings", texts (q.havings.map (Sql.render s))),
      ("order_by", .arr (q.orderBy.map fun k => .arr [.str k.label, .bool k.descending])),
      ("limit", .int q.limit), ("offset", .int q.offset), ("ingredients", texts (q.ingredients.map Ingredient.id))]

end ShelfQuery.Recipe
