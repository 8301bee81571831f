import ShelfQuery.Rows.Row

set_option autoImplicit false

namespace ShelfQuery.Cli

open ShelfQuery.Rows

structure Colour where
  red : Nat
  green : Nat
  blue : Nat

def passColour : Colour := ⟨194, 217, 76⟩

def failColour : Colour := ⟨240, 113, 120⟩

def mutedColour : Colour := ⟨108, 118, 128⟩

def wantsColour (env : List (String × String)) : Bool :=
  (env.lookup "NO_COLOR").isNone && env.lookup "TERM" != some "dumb" && (env.lookup "CLICOLOR_FORCE").isSome

def codeStart : String := "\x1b["

def paint (coloured : Bool) (c : Colour) (s : String) : String :=
  if coloured then
    codeStart ++ "38;2;" ++ toString c.red ++ ";" ++ toString c.green ++ ";" ++ toString c.blue ++ "m" ++ s ++
      codeStart ++ "39m"
  else s

def bold (coloured : Bool) (s : String) : String :=
  if coloured then codeStart ++ "1m" ++ s ++ codeStart ++ "0m" else s

def pad (width : Nat) (s : String) : String := s ++ Text.fill (width - s.length) ' '

def columnWidths (headers : List String) (rows : List (List String)) : List Nat :=
  rows.foldl (fun widths row => widen widths row) (headers.map String.length)
where
  widen : List Nat → List String → List Nat
    | w :: ws, s :: ss => max w s.length :: widen ws ss
    | ws, _ => ws

def padAll : List Nat → List String → List String
  | w :: ws, s :: ss => pad w s :: padAll ws ss
  | _, ss => ss

def tableLine (widths : List Nat) (cells : List String) : String :=
  String.ofList (Text.trimEnd (Text.join "  " (padAll widths cells)).toList)

def tableLines (headers : List String) (rows : List (List String)) : List String :=
  let widths := columnWidths headers rows
  tableLine widths headers :: Text.join "  " (widths.map fun w => Text.fill w '-') :: rows.map (tableLine widths)

def unlines (lines : List String) : String := String.join (lines.map (· ++ "\n"))

def tableText (coloured : Bool) (headers : List String) (rows : List (List String)) : String :=
  match tableLines headers rows with
  | header :: rule :: rest => unlines (bold coloured header :: paint coloured mutedColour rule :: rest)
  | lines => unlines lines

def rowsText (coloured : Bool) (rows : List Row) : String :=
  match rows with
  | [] => ""
  | first :: _ => tableText coloured first.fields (rows.map fun r => r.cells.map Cell.display)

end ShelfQuery.Cli
