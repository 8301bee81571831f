import ShelfQuery.Sql.Tree

set_option autoImplicit false

namespace ShelfQuery.Expression

open ShelfQuery.Sql

inductive Aggregate where
  | sum | avg | min | max | count | countDistinct | median
  | percentile (n : Nat)
  deriving DecidableEq

def Aggregate.name : Aggregate → String
  | .sum => "sum"
  | .avg => "avg"
  | .min => "min"
  | .max => "max"
  | .count => "count"
  | .countDistinct => "count_distinct"
  | .median => "median"
  | .percentile n => "percentile" ++ toString n

inductive Scalar where
  | if | coalesce | substr | string | int | date
  | trunc (unit : TruncUnit)
  deriving DecidableEq

inductive Function where
  | aggregate (aggregate : Aggregate)
  | scalar (scalar : Scalar)

def percentiles : List Nat := [1, 5, 10, 25, 50, 75, 90, 95, 99]

/-- A 32-bit number after `percentile`, with or without a plus sign. -/
def percentileOf? (name : String) : Option Nat :=
  match Text.afterPrefix? "percentile".toList name.toList with
  | none => none
  | some digits =>
    let digits :=
      match digits with
      | '+' :: rest => rest
      | cs => cs
    (Text.digitsValue? digits).filter (· < Nat.pow 2 32)

def Function.ofName? (name : String) : Option Function :=
  let name := Text.lower name
  match name with
  | "sum" => some (.aggregate .sum)
  | "avg" => some (.aggregate .avg)
  | "average" => some (.aggregate .avg)
  | "min" => some (.aggregate .min)
  | "max" => some (.aggregate .max)
  | "count" => some (.aggregate .count)
  | "count_distinct" => some (.aggregate .countDistinct)
  | "median" => some (.aggregate .median)
  | "if" => some (.scalar .if)
  | "coalesce" => some (.scalar .coalesce)
  | "substr" => some (.scalar .substr)
  | "string" => some (.scalar .string)
  | "int" => some (.scalar .int)
  | "date" => some (.scalar .date)
  | _ =>
    match TruncUnit.ofName? name with
    | some unit => some (.scalar (.trunc unit))
    | none => (percentileOf? name).map fun n => .aggregate (.percentile n)

end ShelfQuery.Expression
