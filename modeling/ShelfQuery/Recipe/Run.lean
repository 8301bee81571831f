import ShelfQuery.Recipe.Enchant
import ShelfQuery.Recipe.Basic
import ShelfQuery.Store.Handle

set_option autoImplicit false

namespace ShelfQuery.Recipe

open ShelfQuery.Rows ShelfQuery.Shelf ShelfQuery.Store

structure Kitchen where
  shelf : Shelf
  handle : Option Handle := none

/-- Rows, and whether they come from an earlier run. -/
structure Served where
  fromCache : Bool
  rows : List Row

namespace Kitchen

def execute (k : Kitchen) (time : Nat) (r : Recipe) (make : Query → Statement) :
    Except RecipeError (Query × Execution) × Kitchen :=
  match k.handle with
  | none => (.error (.badRecipe .noDatabase), k)
  | some h =>
    match r.query k.shelf with
    | .error e => (.error e, k)
    | .ok q =>
      let (answer, h) := h.execute time (make q)
      (match answer with
        | .ok x => .ok (q, x)
        | .error e => .error (.storage e),
        { k with handle := some h })

def serve (k : Kitchen) (time : Nat) (r : Recipe) : Except RecipeError Served × Kitchen :=
  let (answer, k) := k.execute time r .select
  (answer.map fun (q, x) => ⟨x.fromCache, enchant q.ingredients r.anonymize x.result.columns x.result.rows⟩, k)

def countOf (x : Execution) : Except RecipeError Int :=
  match x.result.rows with
  | (.int n :: _) :: _ => .ok n
  | _ => .error (.badRecipe (.unexpectedCount "None"))

def totalCount (k : Kitchen) (time : Nat) (r : Recipe) : Except RecipeError Int × Kitchen :=
  let (answer, k) := k.execute time r .count
  (answer.bind fun (_, x) => countOf x, k)

end Kitchen

end ShelfQuery.Recipe
