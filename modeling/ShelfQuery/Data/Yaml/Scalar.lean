set_option autoImplicit false

namespace ShelfQuery.Data.Yaml

def isBreak (c : Char) : Bool :=
  c == '\n' || c == '\r' || c == '\u0085' || c == '\u2028' || c == '\u2029'

def isSpace (c : Char) : Bool := c == ' ' || c == '\t'

def atBlank : List Char → Bool
  | [] => true
  | c :: _ => isSpace c || isBreak c

def breakChar (c : Char) : Char := if c == '\u2028' || c == '\u2029' then c else '\n'

def atDocumentMark : List Char → Bool
  | '-' :: '-' :: '-' :: rest => atBlank rest
  | '.' :: '.' :: '.' :: rest => atBlank rest
  | _ => false

structure Gap where
  blanks : List Char := []
  breaks : List Char := []
  column : Nat

/-- Blanks are kept, one break folds to a space, and of several the first is dropped. -/
def Gap.text (g : Gap) : List Char :=
  match g.breaks with
  | [] => g.blanks
  | ['\n'] => [' ']
  | '\n' :: more => more
  | breaks => breaks

/-- Reads a gap. In a plain scalar, a tab may not stand for indentation. -/
def readGap (tabsFrom : Nat) (g : Gap) : List Char → Option (Gap × List Char)
  | [] => some (g, [])
  | '\r' :: '\n' :: rest => readGap tabsFrom ⟨[], g.breaks ++ ['\n'], 0⟩ rest
  | c :: rest =>
    if isBreak c then readGap tabsFrom ⟨[], g.breaks ++ [breakChar c], 0⟩ rest
    else if isSpace c then
      if g.breaks.isEmpty then readGap tabsFrom ⟨g.blanks ++ [c], [], g.column + 1⟩ rest
      else if c == '\t' && g.column < tabsFrom then none
      else readGap tabsFrom { g with column := g.column + 1 } rest
    else some (g, c :: rest)

def isFlowMark (c : Char) : Bool := c == ',' || c == '[' || c == ']' || c == '\x7b' || c == '\x7d'

def colonIsMisplaced : List Char → Bool
  | c :: _ => isFlowMark c || c == '?'
  | [] => false

def plainWord (inFlow : Bool) : List Char → Option (List Char × List Char)
  | [] => some ([], [])
  | c :: rest =>
    if isSpace c || isBreak c then some ([], c :: rest)
    else if inFlow && c == ':' && colonIsMisplaced rest then none
    else if (c == ':' && atBlank rest) || (inFlow && isFlowMark c) then some ([], c :: rest)
    else (plainWord inFlow rest).map fun (word, rest) => (c :: word, rest)

/-- The words of a plain scalar. The result tells whether its last gap holds a line break, in
which case a key may follow. -/
def plainWords (inFlow : Bool) (indent : Nat) :
    (fuel : Nat) → (column : Nat) → (gap : List Char) → (broken : Bool) → List Char →
      Option (List Char × Bool × List Char)
  | 0, _, _, _, _ => none
  | fuel + 1, column, gap, broken, cs =>
    if (column == 0 && atDocumentMark cs) || cs.head? == some '#' then some ([], broken, cs)
    else
      match plainWord inFlow cs with
      | none => none
      | some ([], rest) => some ([], broken, rest)
      | some (word, rest) =>
        if rest.isEmpty || !atBlank rest then some (gap ++ word, false, rest)
        else
          match readGap indent { column := column + word.length } rest with
          | none => none
          | some (g, rest) =>
            let broken := !g.breaks.isEmpty
            if !inFlow && g.column < indent then some (gap ++ word, broken, rest)
            else
              (plainWords inFlow indent fuel g.column g.text broken rest).map
                fun (more, broken, rest) => (gap ++ word ++ more, broken, rest)

def readPlain (inFlow : Bool) (indent column : Nat) (cs : List Char) :
    Option (List Char × Bool × List Char) :=
  plainWords inFlow indent (cs.length + 1) column [] false cs

def hexDigit? (c : Char) : Option Nat :=
  if c.isDigit then some (c.toNat - 48)
  else if 'a' ≤ c ∧ c ≤ 'f' then some (c.toNat - 87)
  else if 'A' ≤ c ∧ c ≤ 'F' then some (c.toNat - 55)
  else none

def hexValue? : (count value : Nat) → List Char → Option (Nat × List Char)
  | 0, value, rest => some (value, rest)
  | count + 1, value, c :: rest => do hexValue? count (16 * value + (← hexDigit? c)) rest
  | _ + 1, _, [] => none

def codePoint? (digits : Nat) (cs : List Char) : Option (Char × List Char) := do
  let (n, rest) ← hexValue? digits 0 cs
  if n.isValidChar then some (Char.ofNat n, rest) else none

def readEscape : List Char → Option (Char × List Char)
  | '0' :: rest => some ('\x00', rest)
  | 'a' :: rest => some ('\x07', rest)
  | 'b' :: rest => some ('\x08', rest)
  | 't' :: rest => some ('\t', rest)
  | '\t' :: rest => some ('\t', rest)
  | 'n' :: rest => some ('\n', rest)
  | 'v' :: rest => some ('\x0b', rest)
  | 'f' :: rest => some ('\x0c', rest)
  | 'r' :: rest => some ('\r', rest)
  | 'e' :: rest => some ('\x1b', rest)
  | ' ' :: rest => some (' ', rest)
  | '"' :: rest => some ('"', rest)
  | '/' :: rest => some ('/', rest)
  | '\\' :: rest => some ('\\', rest)
  | 'N' :: rest => some ('\u0085', rest)
  | '_' :: rest => some ('\u00a0', rest)
  | 'L' :: rest => some ('\u2028', rest)
  | 'P' :: rest => some ('\u2029', rest)
  | 'x' :: rest => codePoint? 2 rest
  | 'u' :: rest => codePoint? 4 rest
  | 'U' :: rest => codePoint? 8 rest
  | _ => none

/-- Joins a gap inside a quoted scalar. After an escaped line break all breaks count. -/
def quotedGap (escaped : Bool) (g : Gap) : List Char := if escaped then g.breaks else g.text

def readQuoted (single : Bool) :
    (fuel : Nat) → (column : Nat) → List Char → Option (List Char × List Char)
  | 0, _, _ => none
  | fuel + 1, column, cs =>
    if column == 0 && atDocumentMark cs then none
    else
      let gapThen (escaped : Bool) (g : Gap) (cs : List Char) : Option (List Char × List Char) := do
        let (g, rest) ← readGap 0 g cs
        let (more, rest) ← readQuoted single fuel g.column rest
        return (quotedGap escaped g ++ more, rest)
      match cs with
      | [] => none
      | '\'' :: '\'' :: rest =>
        if single then (readQuoted single fuel (column + 2) rest).map fun (more, rest) => ('\'' :: more, rest)
        else (readQuoted single fuel (column + 1) ('\'' :: rest)).map fun (more, rest) => ('\'' :: more, rest)
      | '\\' :: rest =>
        if single then (readQuoted single fuel (column + 1) rest).map fun (more, rest) => ('\\' :: more, rest)
        else
          match rest with
          | '\r' :: '\n' :: rest => escapedBreak fuel rest
          | c :: tail =>
            if isBreak c then escapedBreak fuel tail
            else do
              let (ch, rest) ← readEscape rest
              let (more, rest) ← readQuoted single fuel (column + 2) rest
              return (ch :: more, rest)
          | [] => none
      | c :: rest =>
        if c == (if single then '\'' else '"') then some ([], rest)
        else if isSpace c || isBreak c then gapThen false { column := column } cs
        else (readQuoted single fuel (column + 1) rest).map fun (more, rest) => (c :: more, rest)
where
  escapedBreak (fuel : Nat) (cs : List Char) : Option (List Char × List Char) :=
    match readGap 0 { column := 0 } cs with
    | none => none
    | some (g, rest) => (readQuoted single fuel g.column rest).map fun (more, rest) => (g.breaks ++ more, rest)

inductive Chomp where
  | strip | clip | keep
  deriving DecidableEq

structure BlockHeader where
  chomp : Chomp := .clip
  increment : Option Nat := none

def readChomp? : List Char → Option (Chomp × List Char)
  | '+' :: rest => some (.keep, rest)
  | '-' :: rest => some (.strip, rest)
  | _ => none

def readIncrement : List Char → Option (Option Nat × List Char)
  | c :: rest =>
    if c == '0' then none
    else if c.isDigit then some (some (c.toNat - 48), rest)
    else some (none, c :: rest)
  | [] => some (none, [])

def endHeader (cs : List Char) : Option (List Char) :=
  let cs := cs.dropWhile isSpace
  let cs := if cs.head? == some '#' then cs.dropWhile (!isBreak ·) else cs
  match cs with
  | [] => some []
  | '\r' :: '\n' :: rest => some rest
  | c :: rest => if isBreak c then some rest else none

def readHeader (cs : List Char) : Option (BlockHeader × List Char) := do
  let (header, rest) ←
    match readChomp? cs with
    | some (chomp, rest) => do
      let (increment, rest) ← readIncrement rest
      pure (⟨chomp, increment⟩, rest)
    | none => do
      let (increment, rest) ← readIncrement cs
      match increment, readChomp? rest with
      | some n, some (chomp, rest) => pure (⟨chomp, some n⟩, rest)
      | increment, _ => pure ((⟨.clip, increment⟩ : BlockHeader), rest)
  let rest ← endHeader rest
  return (header, rest)

/-- Indentation and empty lines, up to the next line with content. Gives the breaks, the column
reached and the widest column seen. A tab may not stand within the indentation. -/
def blockBreaks (indent : Option Nat) :
    (column widest : Nat) → List Char → Option (List Char × Nat × Nat × List Char)
  | column, widest, [] => some ([], column, max widest column, [])
  | column, widest, '\r' :: '\n' :: rest =>
    (blockBreaks indent 0 (max widest column) rest).map fun (breaks, out) => ('\n' :: breaks, out)
  | column, widest, c :: rest =>
    let inside := match indent with
      | none => true
      | some n => column < n
    if inside && c == ' ' then blockBreaks indent (column + 1) widest rest
    else if inside && c == '\t' then none
    else if isBreak c then
      (blockBreaks indent 0 (max widest column) rest).map fun (breaks, out) => (breakChar c :: breaks, out)
    else some ([], column, max widest column, c :: rest)

def takeBreak : List Char → List Char × List Char
  | '\r' :: '\n' :: rest => (['\n'], rest)
  | c :: rest => if isBreak c then ([breakChar c], rest) else ([], c :: rest)
  | [] => ([], [])

def startsBlank : List Char → Bool
  | c :: _ => isSpace c
  | [] => false

/-- The lines of a block scalar. `lead` is the break after the previous line, `trail` the empty lines
after it, and `blank` tells whether that line began with a blank. -/
def blockLines (literal : Bool) (chomp : Chomp) (indent : Nat) :
    (fuel : Nat) → (column : Nat) → (lead trail : List Char) → (blank : Bool) → List Char →
      Option (List Char × List Char)
  | 0, _, _, _, _, _ => none
  | fuel + 1, column, lead, trail, blank, cs =>
    if column == indent && !cs.isEmpty then
      let joint :=
        if !literal && lead == ['\n'] && !blank && !startsBlank cs then
          if trail.isEmpty then [' '] else []
        else lead
      let line := cs.takeWhile (!isBreak ·)
      let (next, rest) := takeBreak (cs.dropWhile (!isBreak ·))
      match blockBreaks (some indent) (if next.isEmpty then column + line.length else 0) 0 rest with
      | none => none
      | some (breaks, column, _, rest) =>
        (blockLines literal chomp indent fuel column next breaks (startsBlank cs) rest).map
          fun (more, rest) => (joint ++ trail ++ line ++ more, rest)
    else
      match chomp with
      | .strip => some ([], cs)
      | .clip => some (lead, cs)
      | .keep => some (lead ++ trail, cs)

/-- A block scalar, read after its `|` or `>`. The first line with content sets the indentation
unless the header does; it is deeper than the surroundings in any case. -/
def readBlock (literal : Bool) (outer : Int) (cs : List Char) : Option (List Char × List Char) := do
  let (header, rest) ← readHeader cs
  let given := header.increment.map fun n => (if 0 ≤ outer then outer.toNat else 0) + n
  let (breaks, column, widest, rest) ← blockBreaks given 0 0 rest
  let indent := given.getD (max widest (max (outer + 1).toNat 1))
  blockLines literal header.chomp indent (rest.length + 1) column [] breaks false rest

end ShelfQuery.Data.Yaml
