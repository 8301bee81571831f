set_option autoImplicit false

/-!
# Maps whose entries expire

An entry lives for a fixed time after it was stored, or, in a refreshing map, after it was last read. Times never go
back.
-/

namespace ShelfQuery.Store

structure Stamped (κ ν : Type) where
  key : κ
  value : ν
  stamp : Nat

structure Expiring (κ ν : Type) where
  lifetime : Nat
  refreshing : Bool
  entries : List (Stamped κ ν) := []

namespace Expiring

variable {κ ν : Type} [DecidableEq κ]

def isLive (m : Expiring κ ν) (time : Nat) (e : Stamped κ ν) : Bool := time - e.stamp < m.lifetime

def find? (m : Expiring κ ν) (key : κ) : Option (Stamped κ ν) := m.entries.find? fun e => e.key = key

def without (m : Expiring κ ν) (key : κ) : List (Stamped κ ν) := m.entries.filter fun e => e.key ≠ key

def touch (m : Expiring κ ν) (time : Nat) (e : Stamped κ ν) : Expiring κ ν :=
  if m.refreshing then { m with entries := { e with stamp := time } :: m.without e.key } else m

def get (m : Expiring κ ν) (time : Nat) (key : κ) : Option ν × Expiring κ ν :=
  match m.find? key with
  | none => (none, m)
  | some e =>
    if m.isLive time e then (some e.value, m.touch time e) else (none, { m with entries := m.without key })

def insert (m : Expiring κ ν) (time : Nat) (key : κ) (value : ν) : Expiring κ ν :=
  { m with entries := ⟨key, value, time⟩ :: (m.without key).filter (m.isLive time) }

/-- The value of a key, or else the one that is made, which is stored if the making succeeds. Also
tells whether it was made. -/
def getOrMake {ε : Type} (m : Expiring κ ν) (time : Nat) (key : κ) (make : Unit → Except ε ν) :
    Except ε ν × Bool × Expiring κ ν :=
  match (m.find? key).filter (m.isLive time) with
  | some e => (.ok e.value, false, m.touch time e)
  | none =>
    match make () with
    | .ok value => (.ok value, true, m.insert time key value)
    | .error e => (.error e, true, m)

def remove (m : Expiring κ ν) (key : κ) : Option ν × Expiring κ ν :=
  ((m.find? key).map Stamped.value, { m with entries := m.without key })

def clear (m : Expiring κ ν) : Expiring κ ν := { m with entries := [] }

def size (m : Expiring κ ν) : Nat := m.entries.length

def isEmpty (m : Expiring κ ν) : Bool := m.entries.isEmpty

end Expiring

end ShelfQuery.Store
