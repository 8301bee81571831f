import ShelfQuery.Store.Error

set_option autoImplicit false

namespace ShelfQuery.Store

structure Lock (α : Type) where
  value : α
  held : Bool := false
  poisoned : Bool := false

/-- Takes the lock; `what` names it in the error. A timeout is reported in whole seconds. -/
def Lock.acquire {α : Type} (l : Lock α) (what : String) (milliseconds : Nat) : Except StoreError α :=
  if l.held then .error (.lockTimeout what (milliseconds / 1000)) else .ok l.value

end ShelfQuery.Store
