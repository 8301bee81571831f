set_option autoImplicit false

namespace ShelfQuery.Text

def replacement : Char := Char.ofNat 0xFFFD

def isContinuation (b : Nat) : Bool := 0x80 ≤ b && b < 0xC0

/-- The bounds of the second byte after a given first byte, and how many bytes follow the first. -/
def sequenceShape (first : Nat) : Option (Nat × Nat × Nat) :=
  if 0xC2 ≤ first ∧ first ≤ 0xDF then some (0x80, 0xBF, 1)
  else if first = 0xE0 then some (0xA0, 0xBF, 2)
  else if first = 0xED then some (0x80, 0x9F, 2)
  else if 0xE1 ≤ first ∧ first ≤ 0xEF then some (0x80, 0xBF, 2)
  else if first = 0xF0 then some (0x90, 0xBF, 3)
  else if 0xF1 ≤ first ∧ first ≤ 0xF3 then some (0x80, 0xBF, 3)
  else if first = 0xF4 then some (0x80, 0x8F, 3)
  else none

def leadBits (first count : Nat) : Nat :=
  if count = 1 then first % 32 else if count = 2 then first % 16 else first % 8

def continueSequence : (count code : Nat) → List Nat → Option Nat × List Nat
  | 0, code, rest => (some code, rest)
  | count + 1, code, b :: rest =>
    if isContinuation b then continueSequence count (code * 64 + b % 64) rest else (none, b :: rest)
  | _ + 1, _, [] => (none, [])

def decodeFrom : (fuel : Nat) → List Nat → List Char
  | 0, _ => []
  | _ + 1, [] => []
  | fuel + 1, b :: rest =>
    if b < 0x80 then Char.ofNat b :: decodeFrom fuel rest
    else
      match sequenceShape b, rest with
      | some (low, high, count), second :: after =>
        if low ≤ second ∧ second ≤ high then
          match continueSequence (count - 1) (leadBits b count * 64 + second % 64) after with
          | (some code, rest) => Char.ofNat code :: decodeFrom fuel rest
          | (none, rest) => replacement :: decodeFrom fuel rest
        else replacement :: decodeFrom fuel rest
      | _, _ => replacement :: decodeFrom fuel rest

def decodeBytes (bytes : List UInt8) : String :=
  String.ofList (decodeFrom bytes.length (bytes.map UInt8.toNat))

end ShelfQuery.Text
