import ShelfQuery.Text.Words

set_option autoImplicit false

namespace ShelfQuery.Schema

open ShelfQuery.Text

inductive NameError where
  | datatype (word : String)
  | dialect (word : String)

def NameError.message : NameError → String
  | .datatype word => "unknown datatype: " ++ word
  | .dialect word => "unknown dialect: " ++ word

inductive DataType where
  | bool | date | datetime | num | str | unusable
  deriving DecidableEq

namespace DataType

def name : DataType → String
  | .bool => "bool"
  | .date => "date"
  | .datetime => "datetime"
  | .num => "num"
  | .str => "str"
  | .unusable => "unusable"

def longName : DataType → String
  | .str => "string"
  | t => t.name

def isTemporal : DataType → Bool
  | .date => true
  | .datetime => true
  | _ => false

def isUsable : DataType → Bool
  | .unusable => false
  | _ => true

def parse (word : String) : Except NameError DataType :=
  match lower word with
  | "bool" => .ok .bool
  | "boolean" => .ok .bool
  | "date" => .ok .date
  | "datetime" => .ok .datetime
  | "timestamp" => .ok .datetime
  | "num" => .ok .num
  | "number" => .ok .num
  | "numeric" => .ok .num
  | "str" => .ok .str
  | "string" => .ok .str
  | "unusable" => .ok .unusable
  | _ => .error (.datatype word)

def ofDeclared (declared : String) : DataType :=
  let has (part : String) : Bool := contains (lower declared) part
  if has "datetime" || has "timestamp" then .datetime
  else if has "date" then .date
  else if has "bool" then .bool
  else if ["int", "real", "floa", "doub", "numeric", "decimal"].any has then .num
  else if ["char", "text", "clob", "string"].any has then .str
  else .unusable

end DataType

inductive Dialect where
  | sqlite | postgresql | bigquery
  deriving DecidableEq

namespace Dialect

def name : Dialect → String
  | .sqlite => "sqlite"
  | .postgresql => "postgresql"
  | .bigquery => "bigquery"

/-- Driver names after a plus sign are ignored, and any name that looks like a relative of
PostgreSQL is taken for it. -/
def parse (word : String) : Except NameError Dialect :=
  let driver := String.ofList ((lower word).toList.takeWhile (· ≠ '+'))
  if driver = "sqlite" then .ok .sqlite
  else if driver = "bigquery" then .ok .bigquery
  else if ["redshift", "postg", "pg"].any (contains driver) then .ok .postgresql
  else .error (.dialect word)

def replaceChar (c : Char) (escaped : List Char) (cs : List Char) : List Char :=
  cs.flatMap fun d => if d = c then escaped else [d]

def quote (dialect : Dialect) (name : String) : String :=
  match dialect with
  | .bigquery => String.ofList ('`' :: replaceChar '`' ['\\', '`'] name.toList ++ ['`'])
  | _ => String.ofList ('"' :: replaceChar '"' ['"', '"'] name.toList ++ ['"'])

end Dialect

end ShelfQuery.Schema
