import ShelfQuery.Sql.Tree

set_option autoImplicit false

namespace ShelfQuery.Sql

def isAggregateName (name : String) : Bool :=
  name == "sum" || name == "avg" || name == "min" || name == "max" || name == "count"

mutual

def hasAggregate : Sql → Bool
  | .column _ _ => false
  | .literal _ => false
  | .star => false
  | .arith _ left right => left.hasAggregate || right.hasAggregate
  | .compare _ left right => left.hasAggregate || right.hasAggregate
  | .and items => anyAggregate items
  | .or items => anyAggregate items
  | .not arg => arg.hasAggregate
  | .neg arg => arg.hasAggregate
  | .isNull arg _ => arg.hasAggregate
  | .inList arg items _ => arg.hasAggregate || anyAggregate items
  | .between arg low high => arg.hasAggregate || low.hasAggregate || high.hasAggregate
  | .cast arg _ => arg.hasAggregate
  | .case whens otherwise => anyAggregateWhen whens || optionAggregate otherwise
  | .func name args => isAggregateName name || anyAggregate args
  | .countDistinct _ => true
  | .dateTrunc _ arg _ => arg.hasAggregate
  | .percentile _ _ => true
  | .total _ _ => false

def anyAggregate : List Sql → Bool
  | [] => false
  | item :: rest => item.hasAggregate || anyAggregate rest

def anyAggregateWhen : List (Sql × Sql) → Bool
  | [] => false
  | (condition, value) :: rest => condition.hasAggregate || value.hasAggregate || anyAggregateWhen rest

def optionAggregate : Option Sql → Bool
  | none => false
  | some value => value.hasAggregate

end

mutual

/-- The arguments of the sums, each with the table of the innermost total that it stands in. -/
def sums (inside : Option String) : Sql → List (Option String × Sql)
  | .arith _ left right => left.sums inside ++ right.sums inside
  | .compare _ left right => left.sums inside ++ right.sums inside
  | .and items => sumsOfAll inside items
  | .or items => sumsOfAll inside items
  | .not arg => arg.sums inside
  | .neg arg => arg.sums inside
  | .isNull arg _ => arg.sums inside
  | .inList arg items _ => arg.sums inside ++ sumsOfAll inside items
  | .between arg low high => arg.sums inside ++ low.sums inside ++ high.sums inside
  | .cast arg _ => arg.sums inside
  | .case whens otherwise => sumsOfWhens inside whens ++ sumsOfElse inside otherwise
  | .func name args => (if name = "sum" then args.map (inside, ·) else []) ++ sumsOfAll inside args
  | .countDistinct arg => arg.sums inside
  | .dateTrunc _ arg _ => arg.sums inside
  | .percentile _ arg => arg.sums inside
  | .total table arg => arg.sums (some table)
  | _ => []

def sumsOfAll (inside : Option String) : List Sql → List (Option String × Sql)
  | [] => []
  | item :: rest => item.sums inside ++ sumsOfAll inside rest

def sumsOfWhens (inside : Option String) : List (Sql × Sql) → List (Option String × Sql)
  | [] => []
  | (condition, value) :: rest => condition.sums inside ++ value.sums inside ++ sumsOfWhens inside rest

def sumsOfElse (inside : Option String) : Option Sql → List (Option String × Sql)
  | none => []
  | some value => value.sums inside

end

end ShelfQuery.Sql
