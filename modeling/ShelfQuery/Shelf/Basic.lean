import ShelfQuery.Recipe.Error

set_option autoImplicit false

namespace ShelfQuery

open ShelfQuery.Shelf in
structure Shelf where
  bench : Workbench
  definition : Definition

end ShelfQuery

namespace ShelfQuery.Shelf

open ShelfQuery.Expression ShelfQuery.Schema ShelfQuery.Sql ShelfQuery.Recipe

structure Slot where
  id : String
  entry : Entry
  outcome : Except IngredientError Ingredient

def table (s : Shelf) : String := s.bench.schema.name

def compileEntry (s : Shelf) (id : String) (entry : Entry) : Except IngredientError Ingredient :=
  Ingredient.build s.bench s.definition id entry.toSpec

def slots (s : Shelf) : List Slot := s.definition.map fun (id, entry) => ⟨id, entry, s.compileEntry id entry⟩

def contains (s : Shelf) (id : String) : Bool := (s.definition.find? id).isSome

def get? (s : Shelf) (id : String) : Option (Except IngredientError Ingredient) :=
  (s.definition.find? id).map (s.compileEntry id)

def kindOf (entry : Entry) (outcome : Except IngredientError Ingredient) : Option Kind :=
  match outcome with
  | .ok i => some i.kind
  | .error _ => entry.kind?

def idsOf (s : Shelf) (kind : Kind) : List String :=
  (s.slots.filter fun slot => kindOf slot.entry slot.outcome == some kind).map Slot.id

/-- The ingredient of an entry that is asked for under `key`, if it is of one of the kinds. -/
def pick (key : String) (kinds : List Kind) :
    Option (Entry × Except IngredientError Ingredient) → Except RecipeError Ingredient
  | none => .error (.badRecipe (.missing key))
  | some (entry, outcome) =>
    match kindOf entry outcome with
    | some kind =>
      if kinds.contains kind then outcome.mapError (.badIngredient key) else .error (.badRecipe (.wrongKind key kinds))
    | none => outcome.mapError (.badIngredient key)

def find (s : Shelf) (key : String) (kinds : List Kind) : Except RecipeError Ingredient :=
  pick key kinds ((s.definition.find? key).map fun entry => (entry, s.compileEntry key entry))

def put (id : String) (entry : Entry) : Definition → Definition
  | [] => [(id, entry)]
  | e :: rest => if e.1 == id then (id, entry) :: rest else e :: put id entry rest

def insert (s : Shelf) (id : String) (entry : Entry) : Shelf := { s with definition := put id entry s.definition }

def parseWith {m : Type → Type} [Monad m] [MonadExceptOf RecipeError m] (read : String → Options → m Field)
    (d : Definition) (text : String) (options : Options) : m Field :=
  if hasReferences text then
    match expandReferences "" text d with
    | .ok expanded => read expanded options
    | .error e => throw (.badRecipe (.reference e))
  else read text options

def parse (s : Shelf) : String → Options → Except RecipeError Field :=
  parseWith (fun text options => (s.bench.field text options).mapError .expression) s.definition

end ShelfQuery.Shelf
