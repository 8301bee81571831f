import ShelfQuery.Data.Value

set_option autoImplicit false

namespace ShelfQuery.Data

abbrev Parts := List (Option Value)

/-- Which part a key names, if any; `none` if it cannot be a key. -/
def partOf? (names : List String) (key : Value) : Option (Option Nat) :=
  match key with
  | .text name => some (names.findIdx? (· == name))
  | .int n => if 0 ≤ n then some (if n.toNat < names.length then some n.toNat else none) else none
  | _ => none

def collect (names : List String) : Parts → List (Value × Value) → Option Parts
  | parts, [] => some parts
  | parts, (key, value) :: rest => do
    match ← partOf? names key with
    | none => collect names parts rest
    | some i =>
      match parts[i]? with
      | some none => collect names (parts.set i (some value)) rest
      | _ => none

def partsOf (names : List String) : Value → Option Parts
  | .map entries => collect names (names.map fun _ => none) entries
  | .list items =>
    if items.length ≤ names.length then
      some (items.map some ++ List.replicate (names.length - items.length) none)
    else none
  | _ => none

def part (parts : Parts) (i : Nat) : Option Value := (parts[i]?).join

def orDefault {α : Type} (default : α) (read : Value → Option α) : Option Value → Option α
  | none => some default
  | some v => read v

def Value.bool? : Value → Option Bool
  | .bool b => some b
  | _ => none

def Value.list? : Value → Option (List Value)
  | .list items => some items
  | _ => none

def Value.word? : Value → Option Nat
  | .int n => if 0 ≤ n ∧ n < Int.pow 2 64 then some n.toNat else none
  | _ => none

end ShelfQuery.Data
