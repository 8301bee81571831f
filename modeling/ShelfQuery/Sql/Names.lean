import ShelfQuery.Sql.Tree

set_option autoImplicit false

namespace ShelfQuery.Sql

def reservedWords : List String :=
  ["add", "all", "alter", "and", "as", "autoincrement", "between", "case", "check", "collate", "commit",
    "constraint", "create", "default", "deferrable", "delete", "distinct", "drop", "else", "escape", "except",
    "exists", "foreign", "from", "group", "having", "in", "index", "insert", "intersect", "into", "is",
    "isnull", "join", "limit", "not", "nothing", "notnull", "null", "on", "or", "order", "primary",
    "references", "returning", "select", "set", "table", "then", "to", "transaction", "union", "unique",
    "update", "using", "values", "when", "where"]

def isWordStart (c : Char) : Bool := c.isAlpha || c == '_' || 128 ≤ c.toNat

def isWordChar (c : Char) : Bool := c.isAlphanum || c == '_' || c == '$' || 128 ≤ c.toNat

def isBareName (name : String) : Bool :=
  match name.toList with
  | [] => false
  | c :: rest => isWordStart c && rest.all isWordChar && !reservedWords.contains (Text.lower name)

/-- The words that open an expression of their own, so that no column can be named after them. -/
def openingWords : List String := ["cast", "current_date", "current_time", "current_timestamp", "raise"]

def isTableName (name : String) : Bool := isBareName name && !openingWords.contains (Text.lower name)

/-- What an expression asks of the database: whether a table is known, and whether a column of it is. -/
structure Catalog where
  hasTable : String → Bool
  hasColumn : (table name : String) → Bool

mutual

/-- Whether every table and column is known, and every function is one that SQLite has. `outer` are
the tables in reach. -/
def isKnown (c : Catalog) (outer : List String) : Sql → Bool
  | .column table name =>
    isTableName table && isBareName name && outer.any (Text.sameIgnoringCase table) && c.hasColumn table name
  | .literal _ => true
  | .star => true
  | .arith _ left right => left.isKnown c outer && right.isKnown c outer
  | .compare _ left right => left.isKnown c outer && right.isKnown c outer
  | .and items => areKnown c outer items
  | .or items => areKnown c outer items
  | .not arg => arg.isKnown c outer
  | .neg arg => arg.isKnown c outer
  | .isNull arg _ => arg.isKnown c outer
  | .inList arg items _ => arg.isKnown c outer && areKnown c outer items
  | .between arg low high => arg.isKnown c outer && low.isKnown c outer && high.isKnown c outer
  | .cast arg _ => arg.isKnown c outer
  | .case whens otherwise => whensKnown c outer whens && elseKnown c outer otherwise
  | .func _ args => areKnown c outer args
  | .countDistinct arg => arg.isKnown c outer
  | .dateTrunc _ arg _ => arg.isKnown c outer
  | .percentile _ _ => false
  | .total table arg => isBareName table && c.hasTable table && arg.isKnown c (table :: outer)

def areKnown (c : Catalog) (outer : List String) : List Sql → Bool
  | [] => true
  | item :: rest => item.isKnown c outer && areKnown c outer rest

def whensKnown (c : Catalog) (outer : List String) : List (Sql × Sql) → Bool
  | [] => true
  | (condition, value) :: rest => condition.isKnown c outer && value.isKnown c outer && whensKnown c outer rest

def elseKnown (c : Catalog) (outer : List String) : Option Sql → Bool
  | none => true
  | some value => value.isKnown c outer

end

end ShelfQuery.Sql
