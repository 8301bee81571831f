import ShelfQuery.Proofs.Sql.Reader.Token

set_option autoImplicit false

namespace ShelfQuery.Sql.Reader

open ShelfQuery.Number ShelfQuery.Text

/-- `select` is the value of a query over one table. -/
inductive Expr where
  | column (table name : String)
  | literal (value : Literal)
  | star
  | arith (op : ArithOp) (left right : Expr)
  | modulo (left right : Expr)
  | compare (op : CompareOp) (left right : Expr)
  | and (left right : Expr)
  | or (left right : Expr)
  | not (arg : Expr)
  | neg (arg : Expr)
  | isNull (arg : Expr) (negated : Bool)
  | inList (arg : Expr) (items : List Expr) (negated : Bool)
  | between (arg low high : Expr)
  | cast (arg : Expr) (type : CastType)
  | case (whens : List (Expr × Expr)) (otherwise : Option Expr)
  | call (name : String) (args : List Expr)
  | countDistinct (arg : Expr)
  | select (value : Expr) (table : String) (condition : Option Expr)

inductive BinaryOp where
  | arith (op : ArithOp)
  | modulo
  | compare (op : CompareOp)
  | and
  | or

namespace BinaryOp

def level : BinaryOp → Nat
  | .or => 2
  | .and => 3
  | .compare _ => 5
  | .arith .add => 7
  | .arith .sub => 7
  | .arith .mul => 8
  | .arith .div => 8
  | .modulo => 8
  | .arith .concat => 9

def apply : BinaryOp → Expr → Expr → Expr
  | .arith op => .arith op
  | .modulo => .modulo
  | .compare op => .compare op
  | .and => .and
  | .or => .or

end BinaryOp

def comparisonLevel : Nat := 5

def signLevel : Nat := 10

def Symbol.binary? : Symbol → Option BinaryOp
  | .plus => some (.arith .add)
  | .minus => some (.arith .sub)
  | .star => some (.arith .mul)
  | .slash => some (.arith .div)
  | .percent => some .modulo
  | .bars => some (.arith .concat)
  | .eq => some (.compare .eq)
  | .ne => some (.compare .ne)
  | .lt => some (.compare .lt)
  | .le => some (.compare .le)
  | .gt => some (.compare .gt)
  | .ge => some (.compare .ge)
  | _ => none

namespace Token

def keyword : Token → String
  | .word w => lower w
  | _ => ""

def binary? : Token → Option BinaryOp
  | .symbol s => s.binary?
  | .word w =>
    match lower w with
    | "and" => some .and
    | "or" => some .or
    | "like" => some (.compare .like)
    | _ => none
  | _ => none

def level? (t : Token) : Option Nat :=
  match t.binary? with
  | some op => some op.level
  | none => if t.keyword ∈ ["is", "in", "between", "not"] then some comparisonLevel else none

end Token

def skipWord (word : String) : List Token → Option (List Token)
  | t :: rest => if t.keyword = word then some rest else none
  | [] => none

def skipSymbol (s : Symbol) : List Token → Option (List Token)
  | t :: rest => if t = .symbol s then some rest else none
  | [] => none

abbrev LevelReader := (level : Nat) → List Token → Option (Expr × List Token)

section

variable (read : LevelReader)

def readItems : (count : Nat) → List Token → Option (List Expr × List Token)
  | 0, _ => none
  | count + 1, ts => do
    let (e, ts) ← read 0 ts
    match skipSymbol .comma ts with
    | some ts => do
      let (es, ts) ← readItems count ts
      some (e :: es, ts)
    | none => some ([e], ts)

def readArgs (ts : List Token) : Option (List Expr × List Token) :=
  match skipSymbol .closeParen ts with
  | some ts => some ([], ts)
  | none => do
    let (es, ts) ← readItems read ts.length ts
    let ts ← skipSymbol .closeParen ts
    some (es, ts)

def readIs (left : Expr) (ts : List Token) : Option (Expr × List Token) :=
  match skipWord "not" ts with
  | some ts => do
    let ts ← skipWord "null" ts
    some (.isNull left true, ts)
  | none => do
    let ts ← skipWord "null" ts
    some (.isNull left false, ts)

def readIn (left : Expr) (negated : Bool) (ts : List Token) : Option (Expr × List Token) := do
  let ts ← skipSymbol .openParen ts
  let (items, ts) ← readArgs read ts
  some (.inList left items negated, ts)

def readBetween (left : Expr) (ts : List Token) : Option (Expr × List Token) := do
  let (low, ts) ← read (comparisonLevel + 1) ts
  let ts ← skipWord "and" ts
  let (high, ts) ← read (comparisonLevel + 1) ts
  some (.between left low high, ts)

/-- What follows an operand and begins with `t`. -/
def readSuffix (left : Expr) (t : Token) (rest : List Token) : Option (Expr × List Token) :=
  match t.binary? with
  | some op => do
    let (right, ts) ← read (op.level + 1) rest
    some (op.apply left right, ts)
  | none =>
    match t.keyword with
    | "is" => readIs left rest
    | "in" => readIn read left false rest
    | "between" => readBetween read left rest
    | "not" => do
      let ts ← skipWord "in" rest
      readIn read left true ts
    | _ => none

def readWhens : (count : Nat) → List Token → Option (List (Expr × Expr) × List Token)
  | 0, _ => none
  | count + 1, ts =>
    match skipWord "when" ts with
    | none => some ([], ts)
    | some ts => do
      let (condition, ts) ← read 0 ts
      let ts ← skipWord "then" ts
      let (value, ts) ← read 0 ts
      let (whens, ts) ← readWhens count ts
      some ((condition, value) :: whens, ts)

def readClause (word : String) (ts : List Token) : Option (Option Expr × List Token) :=
  match skipWord word ts with
  | some ts => do
    let (e, ts) ← read 0 ts
    some (some e, ts)
  | none => some (none, ts)

def readCase (ts : List Token) : Option (Expr × List Token) := do
  let (whens, ts) ← readWhens read ts.length ts
  let (otherwise, ts) ← readClause read "else" ts
  let ts ← skipWord "end" ts
  if whens.isEmpty then none else some (.case whens otherwise, ts)

def readType : List Token → Option (CastType × List Token)
  | .word w :: rest =>
    match lower w with
    | "float" => some (.float, rest)
    | "varchar" => some (.varchar, rest)
    | "integer" => some (.integer, rest)
    | _ => none
  | _ => none

def readCast (ts : List Token) : Option (Expr × List Token) := do
  let ts ← skipSymbol .openParen ts
  let (e, ts) ← read 0 ts
  let ts ← skipWord "as" ts
  let (type, ts) ← readType ts
  let ts ← skipSymbol .closeParen ts
  some (.cast e type, ts)

def readTable : List Token → Option (String × List Token)
  | .word w :: .symbol .dot :: .word table :: rest =>
    if isBareName w && isBareName table then some (w ++ "." ++ table, rest) else none
  | .word w :: rest => if isBareName w then some (w, rest) else none
  | _ => none

def readSelect (ts : List Token) : Option (Expr × List Token) := do
  let (value, ts) ← read 0 ts
  let ts ← skipWord "from" ts
  let (table, ts) ← readTable ts
  let (condition, ts) ← readClause read "where" ts
  let ts ← skipSymbol .closeParen ts
  some (.select value table condition, ts)

def readCall (name : String) (ts : List Token) : Option (Expr × List Token) :=
  match skipSymbol .star ts with
  | some ts => do
    let ts ← skipSymbol .closeParen ts
    some (.call name [.star], ts)
  | none =>
    match skipWord "distinct" ts with
    | some ts => do
      let (e, ts) ← read 0 ts
      let ts ← skipSymbol .closeParen ts
      if lower name = "count" then some (.countDistinct e, ts) else none
    | none => do
      let (args, ts) ← readArgs read ts
      some (.call name args, ts)

/-- An operand that begins with a word which no point follows. -/
def readPlainWord (w : String) (rest : List Token) : Option (Expr × List Token) :=
  match lower w with
  | "null" => some (.literal .null, rest)
  | "case" => readCase read rest
  | "cast" => readCast read rest
  | "not" => do
    let (e, ts) ← read comparisonLevel rest
    some (.not e, ts)
  | word =>
    match skipSymbol .openParen rest with
    | some ts => if isBareName w then readCall read w ts else none
    | none =>
      match word with
      | "true" => some (.literal (.bool true), rest)
      | "false" => some (.literal (.bool false), rest)
      | _ => none

def readWord (w : String) : List Token → Option (Expr × List Token)
  | .symbol .dot :: .word table :: .symbol .dot :: .word name :: rest =>
    if isTableName w && isBareName table && isBareName name then some (.column (w ++ "." ++ table) name, rest) else none
  | .symbol .dot :: .word name :: rest =>
    if isTableName w && isBareName name then some (.column w name, rest) else none
  | rest => readPlainWord read w rest

def readParen (ts : List Token) : Option (Expr × List Token) :=
  match skipWord "select" ts with
  | some ts => readSelect read ts
  | none => do
    let (e, ts) ← read 0 ts
    let ts ← skipSymbol .closeParen ts
    some (e, ts)

/-- An integer that does not fit a word is read as a double. -/
def integerLiteral (n : Nat) : Literal :=
  if n < Nat.pow 2 63 then .int n else .float (Binary64.ofDecimal false n 0)

def readOperand : List Token → Option (Expr × List Token)
  | .integer n :: rest => some (.literal (integerLiteral n), rest)
  | .decimal n places :: rest => some (.literal (.float (Binary64.ofDecimal false n (-(places : Int)))), rest)
  | .text s :: rest => some (.literal (.text s), rest)
  | .word w :: rest => readWord read w rest
  | .symbol .openParen :: rest => readParen read rest
  | .symbol .minus :: rest => do
    let (e, ts) ← read signLevel rest
    some (.neg e, ts)
  | _ => none

end

mutual

/-- An operand and all that binds to it with strength `level` or more. -/
def readExpr : (fuel : Nat) → LevelReader
  | 0, _, _ => none
  | fuel + 1, level, ts => do
    let (e, ts) ← readOperand (readExpr fuel) ts
    readMore fuel level e ts

def readMore : (fuel level : Nat) → (left : Expr) → List Token → Option (Expr × List Token)
  | 0, _, _, _ => none
  | _ + 1, _, left, [] => some (left, [])
  | fuel + 1, level, left, t :: rest =>
    match t.level? with
    | none => some (left, t :: rest)
    | some n =>
      if n < level then some (left, t :: rest)
      else do
        let (e, ts) ← readSuffix (readExpr fuel) left t rest
        readMore fuel level e ts

end

def read (text : String) : Option Expr := do
  let ts ← tokens? text
  let (e, rest) ← readExpr (ts.length + 1) 0 ts
  if rest.isEmpty then some e else none

end ShelfQuery.Sql.Reader
