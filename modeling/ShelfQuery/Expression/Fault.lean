import ShelfQuery.Expression.Token
import ShelfQuery.Expression.Tree
import ShelfQuery.Calendar.Relative

set_option autoImplicit false

namespace ShelfQuery.Expression

/-- The type of an expression while it is checked. `unknown` is a column that does not exist and
`broken` an expression whose fault has been reported. -/
inductive ValueType where
  | bool | date | datetime | num | str | null | unknown | broken
  deriving DecidableEq

namespace ValueType

def name : ValueType → String
  | .bool => "bool"
  | .date => "date"
  | .datetime => "datetime"
  | .num => "num"
  | .str => "str"
  | .null => "null"
  | .unknown => "unknown_col"
  | .broken => "error"

def longName : ValueType → String
  | .str => "string"
  | t => t.name

end ValueType

inductive Fault where
  | unterminatedColumn
  | emptyColumn
  | unterminatedText
  | nameExpected
  | invalidNumber (text : String)
  | unexpectedCharacter (c : Char)
  | empty
  | unexpected (found : TokenKind)
  | expected (wanted found : TokenKind)
  | rangeExpected (found : TokenKind)
  | unexpandedReference (name : String)
  | misplacedStar
  | notOfNonBoolean
  | unknownColumn (name : String)
  | notNegatable (type : ValueType)
  | badOperands (op : Arith) (left right : ValueType)
  | divisionByZero
  | notFinite
  | incomparable (left right : ValueType)
  | conditionExpected
  | expressionExpected
  | mixedList
  | betweenTypes (arg low high : ValueType)
  | rangeOfNonTemporal (offset units : String)
  | date (cause : Calendar.DateError)
  | unknownFunction (name : String)
  | forbiddenAggregation
  | aggregateArity (name : String)
  | nestedAggregation
  | unsupportedPercentile (n : Nat)
  | percentileOnSqlite
  | medianOnSqlite
  | notAggregatable (type : ValueType) (name : String)
  | arity (name : String) (least most : Nat)
  | substrArgument (wanted found : ValueType)
  | dateArgument (found : ValueType)
  | truncArgument (name : String) (found : ValueType)
  | ifArity
  | ifTypes (first other : ValueType)
  | coalesceArity
  | coalesceTypes (first other : ValueType)

def Arith.refusal : Arith → String
  | .add => "can not be added together"
  | .sub => "can not be subtracted"
  | .mul => "can not be multiplied together"
  | .div => "can not be divided"

def Fault.message : Fault → String
  | .unterminatedColumn => "Unterminated column name, expected ']'"
  | .emptyColumn => "Empty column name"
  | .unterminatedText => "Unterminated string"
  | .nameExpected => "Expected a name after '@'"
  | .invalidNumber text => "Invalid number '" ++ text ++ "'"
  | .unexpectedCharacter c => "Unexpected character '" ++ c.toString ++ "'"
  | .empty => "Expression is empty"
  | .unexpected found => "Unexpected " ++ found.describe
  | .expected wanted found => "Expected " ++ wanted.describe ++ " but found " ++ found.describe
  | .rangeExpected found => "Expected NULL or a date range but found " ++ found.describe
  | .unexpandedReference name => "@" ++ name ++ " must be expanded before parsing"
  | .misplacedStar => "* can only be used in count(*)"
  | .notOfNonBoolean => "NOT requires a boolean value"
  | .unknownColumn name => name ++ " is not a valid column name"
  | .notNegatable type => "A " ++ type.name ++ " can not be negated"
  | .badOperands op left right => left.longName ++ " and " ++ right.longName ++ " " ++ op.refusal
  | .divisionByZero => "When dividing, the denominator can not be zero"
  | .notFinite => "Numbers must be finite"
  | .incomparable left right => "Can't compare " ++ left.name ++ " to " ++ right.name
  | .conditionExpected => "This should be a boolean column or expression"
  | .expressionExpected => "Must be a column or expression"
  | .mixedList => "An array may not contain both strings and numbers"
  | .betweenTypes arg low high =>
    "When using between, the column (" ++ arg.name ++ ") and between values (" ++ low.name ++ ", " ++
      high.name ++ ") must be the same data type."
  | .rangeOfNonTemporal offset units =>
    offset ++ " " ++ units ++ " can only be used with a date or datetime"
  | .date cause => cause.message
  | .unknownFunction name => name ++ " is not a valid function"
  | .forbiddenAggregation => "Aggregations are not allowed in this field."
  | .aggregateArity name => name ++ " expects 1 argument"
  | .nestedAggregation => "Aggregations can not be nested"
  | .unsupportedPercentile n => "Percentile values of " ++ toString n ++ " are not supported."
  | .percentileOnSqlite => "Percentile is not supported on sqlite"
  | .medianOnSqlite => "Median is not supported on sqlite"
  | .notAggregatable type name => "A " ++ type.name ++ " can not be aggregated using " ++ name ++ "."
  | .arity name least most =>
    if least = most then
      name ++ " expects " ++ toString least ++ " argument" ++ (if least = 1 then "" else "s")
    else name ++ " expects " ++ toString least ++ " to " ++ toString most ++ " arguments"
  | .substrArgument wanted found =>
    "substr expects a " ++ wanted.longName ++ ", not " ++ found.longName
  | .dateArgument found => "date expects a string or a date, not " ++ found.longName
  | .truncArgument name found => name ++ " expects a date or datetime, not " ++ found.longName
  | .ifArity => "if expects a condition and a value"
  | .ifTypes first other =>
    "The values in this if statement must be the same type, not " ++ first.name ++ " and " ++ other.name
  | .coalesceArity => "coalesce expects at least 1 argument"
  | .coalesceTypes first other =>
    "The values in coalesce must be the same type, not " ++ first.name ++ " and " ++ other.name

structure Diagnostic where
  fault : Fault
  pos : Option Nat

namespace Diagnostic

def placed (fault : Fault) (pos : Nat) : Diagnostic := ⟨fault, some pos⟩

def unplaced (fault : Fault) : Diagnostic := ⟨fault, none⟩

def block (text : String) (d : Diagnostic) : String :=
  match d.pos with
  | some pos => d.fault.message ++ "\n\n" ++ text ++ "\n" ++ Text.fill pos ' ' ++ "^\n"
  | none => d.fault.message ++ "\n"

def render (text : String) (ds : List Diagnostic) : String :=
  String.ofList (Text.trimEnd (String.join (ds.map (block text))).toList)

end Diagnostic

end ShelfQuery.Expression
