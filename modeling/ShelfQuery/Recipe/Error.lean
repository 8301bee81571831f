import ShelfQuery.Shelf.Ingredient
import ShelfQuery.Store.Error

set_option autoImplicit false

namespace ShelfQuery.Recipe

open ShelfQuery.Shelf ShelfQuery.Expression ShelfQuery.Schema ShelfQuery.Data

inductive FilterError where
  | unknownOperator (operator : String)
  | incompleteCondition
  | unknownQuickSelect (name id : String)
  | date (cause : Calendar.DateError)
  | notFilterable (datatype : DataType) (value : Json)
  | badBounds

def FilterError.message : FilterError → String
  | .unknownOperator operator => "Unknown operator " ++ operator
  | .incompleteCondition => "Nested conditions need an operator and a value"
  | .unknownQuickSelect name id => "quickselect " ++ name ++ " was not found in ingredient " ++ id
  | .date cause => cause.message
  | .notFilterable datatype value => "Can't filter " ++ datatype.name ++ " on " ++ value.compact
  | .badBounds => "When using between, you can only supply a lower and upper bounds."

inductive Request where
  | missing (key : String)
  | wrongKind (key : String) (kinds : List Kind)
  | notBoolean (filter : String)
  | noIngredients
  | noDatabase
  | reference (cause : ReferenceError)
  | unexpectedCount (found : String)

def Request.message : Request → String
  | .missing key => key ++ " doesn't exist on the shelf"
  | .wrongKind key kinds => key ++ " is not a " ++ Text.join " or " (kinds.map Kind.name)
  | .notBoolean filter => filter ++ " is not a boolean expression"
  | .noIngredients => "No ingredients have been added to this recipe"
  | .noDatabase => "No database has been set for this recipe"
  | .reference cause => cause.message
  | .unexpectedCount found => "unexpected count result: " ++ found

/-- `unreadable` is a shelf text that is not well formed, `noText` a shelf file that gives no text. -/
inductive RecipeError where
  | badRecipe (cause : Request)
  | badIngredient (id : String) (cause : IngredientError)
  | expression (cause : FieldError)
  | badFilter (cause : FilterError)
  | unreadable (detail : String)
  | noText (detail : String)
  | storage (cause : Store.StoreError)

def RecipeError.message : RecipeError → String
  | .badRecipe cause => cause.message
  | .badIngredient id cause => id ++ ": " ++ cause.message
  | .expression cause => cause.message
  | .badFilter cause => cause.message
  | .unreadable detail => "failed to parse shelf: " ++ detail
  | .noText detail => "IO error: " ++ detail
  | .storage cause => cause.message

end ShelfQuery.Recipe
