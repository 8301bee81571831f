import ShelfQuery.Digest.Sha256
import ShelfQuery.Rows.Cell
import ShelfQuery.Store.Expiring

set_option autoImplicit false

namespace ShelfQuery.Store

open ShelfQuery.Rows

def taggedText : Cell → String
  | .null => "null"
  | .int n => "i:" ++ toString n
  | .real x => "r:" ++ Number.plain x
  | .text s => "t:" ++ s

def parameterBytes : (index : Nat) → List Cell → List UInt8
  | _, [] => []
  | index, cell :: rest =>
    0 :: Digest.bytes (toString index ++ "=" ++ taggedText cell) ++ parameterBytes (index + 1) rest

def statementBytes (sql : String) (params : List Cell) : List UInt8 := Digest.bytes sql ++ parameterBytes 1 params

def cacheKey (sql : String) (params : List Cell) : String :=
  "recipe:cache:" ++ Digest.hexDigest (statementBytes sql params)

structure Result where
  columns : List String
  rows : List (List Cell)

structure Execution where
  fromCache : Bool
  result : Result

abbrev ResultCache := Expiring String Result

/-- Answers from the cache, or else runs the statement and keeps its result. Without a cache the
statement always runs. -/
def executeCached {ε σ : Type} (cache : Option ResultCache) (time : Nat) (key : String) (state : σ)
    (run : σ → Except ε Result × σ) : Except ε Execution × Option ResultCache × σ :=
  match cache with
  | none =>
    let (answer, state) := run state
    (answer.map (⟨false, ·⟩), none, state)
  | some cache =>
    match cache.get time key with
    | (some result, cache) => (.ok ⟨true, result⟩, some cache, state)
    | (none, cache) =>
      match run state with
      | (.ok result, state) => (.ok ⟨false, result⟩, some (cache.insert time key result), state)
      | (.error e, state) => (.error e, some cache, state)

end ShelfQuery.Store
