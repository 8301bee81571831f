import ShelfQuery.Schema.DataType

set_option autoImplicit false

namespace ShelfQuery.Schema

open ShelfQuery.Text

structure Column where
  name : String
  datatype : DataType
  deriving DecidableEq

structure Table where
  name : String
  columns : List Column
  deriving DecidableEq

def isNameStart (c : Char) : Bool := c.isAlpha || c == '_'

def isNameChar (c : Char) : Bool := c.isAlphanum || c == '_'

def isIdentifier (name : String) : Bool :=
  match name.toList with
  | [] => false
  | c :: rest => isNameStart c && rest.all isNameChar

namespace Table

def find? (t : Table) (name : String) : Option Column :=
  t.columns.find? fun c => isIdentifier c.name && sameIgnoringCase c.name name

def columnsOf (t : Table) (datatype : DataType) : List Column :=
  t.columns.filter fun c => c.datatype == datatype && isIdentifier c.name

end Table

end ShelfQuery.Schema
