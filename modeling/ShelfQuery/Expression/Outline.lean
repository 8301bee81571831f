import ShelfQuery.Data.Json
import ShelfQuery.Expression.Tree

set_option autoImplicit false

namespace ShelfQuery.Expression

open ShelfQuery.Data

def Arith.symbol : Arith → String
  | .add => "+"
  | .sub => "-"
  | .mul => "*"
  | .div => "/"

def Comparison.symbol : Comparison → String
  | .eq => "="
  | .ne => "!="
  | .lt => "<"
  | .le => "<="
  | .gt => ">"
  | .ge => ">="

def outlineNode (kind : String) (pos : Nat) (parts : List Json) : Json := .arr (.str kind :: .int pos :: parts)

def Constant.outline (pos : Nat) : Constant → Json
  | .null => outlineNode "null" pos []
  | .bool b => outlineNode "bool" pos [.bool b]
  | .int n => outlineNode "int" pos [.int n]
  | .float x => outlineNode "float" pos [.str (Number.plain x)]
  | .text s => outlineNode "str" pos [.str s]

mutual

def Tree.outline : Tree → Json
  | .column p name => outlineNode "column" p [.str name]
  | .constant p value => value.outline p
  | .star p => outlineNode "star" p []
  | .neg p arg => outlineNode "neg" p [arg.outline]
  | .not p arg => outlineNode "not" p [arg.outline]
  | .arith p op left right => outlineNode "arith" p [.str op.symbol, left.outline, right.outline]
  | .compare p op left right => outlineNode "compare" p [.str op.symbol, left.outline, right.outline]
  | .and p left right => outlineNode "and" p [left.outline, right.outline]
  | .or p left right => outlineNode "or" p [left.outline, right.outline]
  | .inList p arg items negated => outlineNode "in" p [arg.outline, .arr (outlines items), .bool negated]
  | .between p arg low high => outlineNode "between" p [arg.outline, low.outline, high.outline]
  | .like p arg pattern ignoreCase negated =>
    outlineNode "like" p [arg.outline, pattern.outline, .bool ignoreCase, .bool negated]
  | .isNull p arg negated => outlineNode "isnull" p [arg.outline, .bool negated]
  | .isRange p arg offset units offsetPos =>
    outlineNode "range" p [arg.outline, .str offset, .str units, .int offsetPos]
  | .call p name args => outlineNode "call" p [.str name, .arr (outlines args)]
  | .total p arg => outlineNode "total" p [arg.outline]

def outlines : List Tree → List Json
  | [] => []
  | t :: rest => t.outline :: outlines rest

end

end ShelfQuery.Expression
