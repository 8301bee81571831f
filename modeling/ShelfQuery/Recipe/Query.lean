import ShelfQuery.Shelf.Ingredient

set_option autoImplicit false

namespace ShelfQuery.Recipe

open ShelfQuery.Shelf ShelfQuery.Sql ShelfQuery.Schema

structure SortKey where
  label : String
  descending : Bool
  deriving DecidableEq

/-- `groupBy` holds labels of columns. A limit of 0 is no limit. -/
structure Query where
  dialect : Dialect
  source : String
  columns : List (String × Sql)
  groupBy : List String
  filters : List Sql
  havings : List Sql
  orderBy : List SortKey
  limit : Nat
  offset : Nat
  ingredients : List Ingredient

namespace Query

def column? (q : Query) (label : String) : Option Sql :=
  (q.columns.find? fun c => c.1 == label).map Prod.snd

def wheres (q : Query) : List String := q.filters.map (Sql.renderConjunct ⟨q.dialect, []⟩)

def setting (q : Query) : Setting := ⟨q.dialect, q.wheres⟩

def selectClause (q : Query) : String :=
  "SELECT " ++ Text.join ", " (q.columns.map fun (label, sql) =>
    sql.render q.setting ++ " AS " ++ q.dialect.quote label)

def clause (lead sep : String) (parts : List String) : List String :=
  if parts.isEmpty then [] else [lead ++ Text.join sep parts]

/-- Grouping is by expressions, since a label may also be the name of a column of the table. -/
def groupExpressions (q : Query) : List String :=
  (q.groupBy.filterMap q.column?).map (Sql.render q.setting)

def SortKey.text (dialect : Dialect) (k : SortKey) : String :=
  if k.descending then dialect.quote k.label ++ " DESC" else dialect.quote k.label

/-- SQLite has OFFSET only after LIMIT. -/
def paging (q : Query) : List String :=
  (if 0 < q.limit then ["LIMIT " ++ toString q.limit]
    else if 0 < q.offset ∧ q.dialect = .sqlite then ["LIMIT -1"]
    else []) ++
  (if 0 < q.offset then ["OFFSET " ++ toString q.offset] else [])

def lines (q : Query) (paged : Bool) : List String :=
  [q.selectClause, "FROM " ++ q.source] ++
    clause "WHERE " " AND " q.wheres ++
    clause "GROUP BY " ", " q.groupExpressions ++
    clause "HAVING " " AND " (q.havings.map (Sql.renderConjunct q.setting)) ++
    clause "ORDER BY " ", " (q.orderBy.map (SortKey.text q.dialect)) ++
    (if paged then q.paging else [])

def text (q : Query) : String := Text.join "\n" (q.lines true)

def unpagedText (q : Query) : String := Text.join "\n" (q.lines false)

def countText (q : Query) : String := "SELECT count(*) FROM (\n" ++ q.unpagedText ++ "\n) AS subquery"

end Query

end ShelfQuery.Recipe
