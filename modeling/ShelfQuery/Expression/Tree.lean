set_option autoImplicit false

namespace ShelfQuery.Expression

inductive Constant where
  | null
  | bool (value : Bool)
  | int (value : Int)
  | float (value : Float)
  | text (value : String)

inductive Arith where
  | add | sub | mul | div
  deriving DecidableEq

inductive Comparison where
  | eq | ne | lt | le | gt | ge
  deriving DecidableEq

inductive Tree where
  | column (pos : Nat) (name : String)
  | constant (pos : Nat) (value : Constant)
  | star (pos : Nat)
  | neg (pos : Nat) (arg : Tree)
  | not (pos : Nat) (arg : Tree)
  | arith (pos : Nat) (op : Arith) (left right : Tree)
  | compare (pos : Nat) (op : Comparison) (left right : Tree)
  | and (pos : Nat) (left right : Tree)
  | or (pos : Nat) (left right : Tree)
  | inList (pos : Nat) (arg : Tree) (items : List Tree) (negated : Bool)
  | between (pos : Nat) (arg low high : Tree)
  | like (pos : Nat) (arg pattern : Tree) (ignoreCase negated : Bool)
  | isNull (pos : Nat) (arg : Tree) (negated : Bool)
  | isRange (pos : Nat) (arg : Tree) (offset units : String) (offsetPos : Nat)
  | call (pos : Nat) (name : String) (args : List Tree)
  | total (pos : Nat) (arg : Tree)

def Tree.pos : Tree → Nat
  | .column pos _ => pos
  | .constant pos _ => pos
  | .star pos => pos
  | .neg pos _ => pos
  | .not pos _ => pos
  | .arith pos _ _ _ => pos
  | .compare pos _ _ _ => pos
  | .and pos _ _ => pos
  | .or pos _ _ => pos
  | .inList pos _ _ _ => pos
  | .between pos _ _ _ => pos
  | .like pos _ _ _ _ => pos
  | .isNull pos _ _ => pos
  | .isRange pos _ _ _ _ => pos
  | .call pos _ _ => pos
  | .total pos _ => pos

end ShelfQuery.Expression
