import ShelfQuery.Proofs.Text.Words
import ShelfQuery.Sql.Names
import ShelfQuery.Sql.Render

set_option autoImplicit false

namespace ShelfQuery.Sql.Reader

inductive Symbol where
  | openParen | closeParen | comma | dot | plus | minus | star | slash | percent | bars
  | eq | ne | lt | le | gt | ge
  deriving DecidableEq

/-- `decimal` stands for `coefficient / 10 ^ places`. -/
inductive Token where
  | word (text : String)
  | integer (value : Nat)
  | decimal (coefficient places : Nat)
  | text (value : String)
  | symbol (symbol : Symbol)
  deriving DecidableEq

/-- Where a reader stands: between tokens, inside of one, or in a comment. `quote` is after a quote
that ends a text unless another one follows, and `sign` after a character that may begin a longer
sign. -/
inductive Position where
  | between
  | word (read : List Char)
  | whole (value : Nat)
  | fraction (coefficient places : Nat)
  | text (read : List Char)
  | quote (read : List Char)
  | sign (c : Char)
  | lineComment
  | blockComment (star : Bool)

def isSpace (c : Char) : Bool := c == ' ' || c == '\t' || c == '\n' || c == '\r' || c == '\x0c'

def digit (c : Char) : Nat := c.toNat - '0'.toNat

def Symbol.ofChar? : Char → Option Symbol
  | '(' => some .openParen
  | ')' => some .closeParen
  | ',' => some .comma
  | '+' => some .plus
  | '*' => some .star
  | '%' => some .percent
  | _ => none

def Symbol.alone? : Char → Option Symbol
  | '.' => some .dot
  | '-' => some .minus
  | '/' => some .slash
  | '=' => some .eq
  | '<' => some .lt
  | '>' => some .gt
  | _ => none

def Symbol.ofPair? : Char → Char → Option Symbol
  | '|', '|' => some .bars
  | '=', '=' => some .eq
  | '!', '=' => some .ne
  | '<', '>' => some .ne
  | '<', '=' => some .le
  | '>', '=' => some .ge
  | _, _ => none

/-- Pairs that would begin another kind of token. -/
def isRefused : Char → Char → Bool
  | '-', '>' => true
  | '<', '<' => true
  | '>', '>' => true
  | '.', d => d.isDigit
  | _, _ => false

abbrev Step := Option (List Token × Position)

def Step.after (ts : List Token) (s : Step) : Step := s.map fun (us, p) => (ts ++ us, p)

def openToken (c : Char) : Step :=
  if isSpace c then some ([], .between)
  else if isWordStart c then some ([], .word [c])
  else if c.isDigit then some ([], .whole (digit c))
  else if c = '\'' then some ([], .text [])
  else
    match Symbol.ofChar? c with
    | some s => some ([.symbol s], .between)
    | none => if c ∈ ['.', '-', '/', '=', '<', '>', '!', '|'] then some ([], .sign c) else none

def afterSign (c d : Char) : Step :=
  if c = '-' ∧ d = '-' then some ([], .lineComment)
  else if c = '/' ∧ d = '*' then some ([], .blockComment false)
  else if isRefused c d then none
  else
    match Symbol.ofPair? c d with
    | some s => some ([.symbol s], .between)
    | none =>
      match Symbol.alone? c with
      | some s => (openToken d).after [.symbol s]
      | none => none

/-- Reads one character. The characters of a word or text so far are kept with the last one first. -/
def Position.next : Position → Char → Step
  | .between, c => openToken c
  | .word read, c =>
    if isWordChar c then some ([], .word (c :: read))
    else if c = '\'' then none
    else (openToken c).after [.word (String.ofList read.reverse)]
  | .whole n, c =>
    if c.isDigit then some ([], .whole (n * 10 + digit c))
    else if c = '.' then some ([], .fraction n 0)
    else if isWordStart c then none
    else (openToken c).after [.integer n]
  | .fraction n places, c =>
    if c.isDigit then some ([], .fraction (n * 10 + digit c) (places + 1))
    else if c = '.' then none
    else if isWordStart c then none
    else (openToken c).after [.decimal n places]
  | .text read, c => if c = '\'' then some ([], .quote read) else some ([], .text (c :: read))
  | .quote read, c =>
    if c = '\'' then some ([], .text ('\'' :: read)) else (openToken c).after [.text (String.ofList read.reverse)]
  | .sign s, c => afterSign s c
  | .lineComment, c => some ([], if c = '\n' then .between else .lineComment)
  | .blockComment star, c => some ([], if star && c == '/' then .between else .blockComment (c == '*'))

def Position.finish? : Position → Option (List Token)
  | .between => some []
  | .word read => some [.word (String.ofList read.reverse)]
  | .whole n => some [.integer n]
  | .fraction n places => some [.decimal n places]
  | .text _ => none
  | .quote read => some [.text (String.ofList read.reverse)]
  | .sign c => (Symbol.alone? c).map fun s => [.symbol s]
  | .lineComment => some []
  | .blockComment _ => some []

def tokensFrom (p : Position) : List Char → Option (List Token)
  | [] => p.finish?
  | c :: rest => do
    let (ts, p) ← p.next c
    let us ← tokensFrom p rest
    some (ts ++ us)

def tokens? (text : String) : Option (List Token) := tokensFrom .between text.toList

def Position.run (p : Position) : List Char → Step
  | [] => some ([], p)
  | c :: rest => (p.next c).bind fun (ts, q) => (q.run rest).after ts

theorem Step.after_nil (s : Step) : s.after [] = s := by
  cases s <;> rfl

theorem Step.after_after (ts us : List Token) (s : Step) : (s.after us).after ts = s.after (ts ++ us) := by
  cases s with
  | none => rfl
  | some s => simp [Step.after]

theorem Position.run_append (p : Position) (a b : List Char) :
    p.run (a ++ b) = (p.run a).bind fun (ts, q) => (q.run b).after ts := by
  induction a generalizing p with
  | nil => simp [run, Step.after_nil]
  | cons c rest ih =>
    simp only [List.cons_append, run]
    cases p.next c with
    | none => rfl
    | some s =>
      simp only [Option.bind_some, ih]
      cases s.2.run rest with
      | none => rfl
      | some s' => exact Step.after_after _ _ _

theorem tokensFrom_eq (p : Position) (cs : List Char) :
    tokensFrom p cs = (p.run cs).bind fun (ts, q) => q.finish?.map (ts ++ ·) := by
  induction cs generalizing p with
  | nil => simp [tokensFrom, Position.run]
  | cons c rest ih =>
    simp only [tokensFrom, Position.run, Option.bind_eq_bind]
    cases p.next c with
    | none => rfl
    | some s =>
      simp only [Option.bind_some, ih]
      cases s.2.run rest with
      | none => rfl
      | some s' =>
        cases hfinish : s'.2.finish? <;> simp [Step.after, hfinish]

def isBreak (c : Char) : Bool := c == ' ' || c == ')' || c == ','

def Position.flush? : Position → Option (List Token)
  | .between => some []
  | .word read => some [.word (String.ofList read.reverse)]
  | .whole n => some [.integer n]
  | .fraction n places => some [.decimal n places]
  | .quote read => some [.text (String.ofList read.reverse)]
  | _ => none

variable {ts : List Token} {c : Char} {text w : String} {cs : List Char}

theorem Position.finish?_of_flush? {p : Position} (h : p.flush? = some ts) : p.finish? = some ts := by
  cases p <;> first | exact h | exact nomatch h

theorem Position.next_of_break {p : Position} (h : p.flush? = some ts)
    (hc : isBreak c = true) : p.next c = (openToken c).after ts := by
  have hcases : c = ' ' ∨ c = ')' ∨ c = ',' := by simpa [isBreak, or_assoc] using hc
  cases p <;> first | (cases h; rcases hcases with rfl | rfl | rfl <;> rfl) | exact nomatch h

/-- `text`, before a break, is read as the tokens `ts`. -/
def Lexes (text : String) (ts : List Token) : Prop :=
  ∃ us p vs, Position.run .between text.toList = some (us, p) ∧ p.flush? = some vs ∧ ts = us ++ vs

/-- `text` is read as the tokens `ts`, whatever follows. -/
def Opens (text : String) (ts : List Token) : Prop := Position.run .between text.toList = some (ts, .between)

def Breaks (text : String) : Prop := text.toList.head?.any isBreak = true

theorem tokens?_of_lexes (h : Lexes text ts) : tokens? text = some ts := by
  obtain ⟨us, p, vs, hrun, hflush, rfl⟩ := h
  rw [tokens?, tokensFrom_eq, hrun]
  simp [Position.finish?_of_flush? hflush]

theorem Opens.lexes (h : Opens text ts) : Lexes text ts :=
  ⟨ts, .between, [], h, rfl, (List.append_nil ts).symm⟩

theorem Opens.append {a b : String} {ts us : List Token} (ha : Opens a ts) (hb : Lexes b us) :
    Lexes (a ++ b) (ts ++ us) := by
  obtain ⟨vs, p, ws, hrun, hflush, rfl⟩ := hb
  refine ⟨ts ++ vs, p, ws, ?_, hflush, by simp⟩
  rw [String.toList_append, Position.run_append, ha]
  simp [hrun, Step.after]

theorem Lexes.append {a b : String} {ts us : List Token} (ha : Lexes a ts) (hb : Lexes b us) (hbreak : Breaks b) :
    Lexes (a ++ b) (ts ++ us) := by
  obtain ⟨ts', p, vs, hrun, hflush, rfl⟩ := ha
  obtain ⟨us', q, ws, hrun', hflush', rfl⟩ := hb
  obtain ⟨c, rest, hb⟩ : ∃ c rest, b.toList = c :: rest := by
    unfold Breaks at hbreak
    cases hb : b.toList with
    | nil => simp [hb] at hbreak
    | cons c rest => exact ⟨c, rest, rfl⟩
  have hc : isBreak c = true := by simpa [Breaks, hb] using hbreak
  -- a break is read alike between tokens and after a token that it ends
  have hafter : p.run b.toList = (Position.run .between b.toList).after vs := by
    have hbetween : Position.next .between c = openToken c := rfl
    rw [hb, Position.run, Position.run, Position.next_of_break hflush hc, hbetween]
    cases openToken c with
    | none => rfl
    | some s => exact (Step.after_after _ _ _).symm
  refine ⟨ts' ++ (vs ++ us'), q, ws, ?_, hflush', by simp⟩
  rw [String.toList_append, Position.run_append, hrun]
  simp [hafter, hrun', Step.after]

/-- A minus sign that neither another one nor an arrow follows. -/
theorem Lexes.minus {s : String} (h : Lexes s ts) {rest : List Char}
    (hs : s.toList = c :: rest) (hc : c ≠ '-') (hc' : c ≠ '>') : Lexes ("-" ++ s) (.symbol .minus :: ts) := by
  obtain ⟨us, p, vs, hrun, hflush, rfl⟩ := h
  have hnext : Position.next (.sign '-') c = (openToken c).after [.symbol .minus] := by
    simp [Position.next, afterSign, isRefused, Symbol.ofPair?, Symbol.alone?, hc, hc']
  have hsign : Position.run (.sign '-') s.toList = (Position.run .between s.toList).after [.symbol .minus] := by
    have hbetween : Position.next .between c = openToken c := rfl
    rw [hs, Position.run, Position.run, hnext, hbetween]
    cases openToken c with
    | none => rfl
    | some s => exact (Step.after_after _ _ _).symm
  have hopen : Position.next .between '-' = some ([], .sign '-') := rfl
  refine ⟨.symbol .minus :: us, p, vs, ?_, hflush, rfl⟩
  have htext : ("-" ++ s).toList = '-' :: s.toList := by simp
  simp [htext, Position.run, hopen, hsign, hrun, Step.after]

theorem not_isSpace_of_isWordStart (h : isWordStart c = true) : isSpace c = false := by
  refine Bool.eq_false_iff.mpr fun hspace => ?_
  have hcases : c = ' ' ∨ c = '\t' ∨ c = '\n' ∨ c = '\r' ∨ c = '\x0c' := by simpa [isSpace, or_assoc] using hspace
  rcases hcases with rfl | rfl | rfl | rfl | rfl <;> exact absurd h (by decide)

theorem not_isWordStart_of_isDigit (h : c.isDigit = true) : isWordStart c = false := by
  have hrange := Text.isDigit_range h
  have hunderscore : c ≠ '_' := by
    rintro rfl
    exact absurd h (by decide)
  simp [isWordStart, Text.not_isAlpha_of_isDigit h, hunderscore]
  omega

theorem openToken_of_isWordStart (h : isWordStart c = true) : openToken c = some ([], .word [c]) := by
  simp [openToken, h, not_isSpace_of_isWordStart h]

theorem run_word (h : ∀ c ∈ cs, isWordChar c = true) (read : List Char) :
    Position.run (.word read) cs = some ([], .word (cs.reverse ++ read)) := by
  induction cs generalizing read with
  | nil => rfl
  | cons c rest ih =>
    have hc := h c (List.mem_cons_self ..)
    have hrest := ih (fun d hd => h d (List.mem_cons_of_mem _ hd)) (c :: read)
    simp [Position.run, Position.next, hc, hrest, Step.after]

/-- `text` is read as the tokens `ts` and the word `w` after them, which may go on. -/
def EndsInWord (text : String) (ts : List Token) (w : String) : Prop :=
  Position.run .between text.toList = some (ts, .word w.toList.reverse)

theorem EndsInWord.lexes (h : EndsInWord text ts w) : Lexes text (ts ++ [.word w]) :=
  ⟨ts, _, [.word w], h, by simp [Position.flush?], rfl⟩

theorem isBareName_chars (h : isBareName w = true) :
    ∃ c rest, w.toList = c :: rest ∧ isWordStart c = true ∧ ∀ d ∈ rest, isWordChar d = true := by
  unfold isBareName at h
  split at h
  · cases h
  · next c rest heq =>
    simp only [Bool.and_eq_true, List.all_eq_true] at h
    exact ⟨c, rest, heq, h.1.1, h.1.2⟩

theorem endsInWord_of_isBareName (h : isBareName w = true) : EndsInWord w [] w := by
  obtain ⟨c, rest, hw, hc, hrest⟩ := isBareName_chars h
  simp [EndsInWord, hw, Position.run, Position.next, openToken_of_isWordStart hc, run_word hrest, Step.after]

theorem EndsInWord.dot {text v w : String} (h : EndsInWord text ts v) (hw : isBareName w = true) :
    EndsInWord (text ++ "." ++ w) (ts ++ [.word v, .symbol .dot]) w := by
  obtain ⟨c, rest, hw, hc, hrest⟩ := isBareName_chars hw
  have hdot : Position.next (.word v.toList.reverse) '.' = some ([.word v], .sign '.') := by
    simp only [Position.next]
    rw [if_neg (by decide), if_neg (by decide), List.reverse_reverse, String.ofList_toList]
    rfl
  have hdigit : c.isDigit = false :=
    Bool.eq_false_iff.mpr fun hdigit => Bool.eq_false_iff.mp (not_isWordStart_of_isDigit hdigit) hc
  have hname : Position.next (.sign '.') c = some ([.symbol .dot], .word [c]) := by
    simp [Position.next, afterSign, isRefused, hdigit, Symbol.ofPair?, Symbol.alone?, openToken_of_isWordStart hc,
      Step.after]
  have hrun : Position.run (.word v.toList.reverse) ('.' :: w.toList) =
      some ([.word v, .symbol .dot], .word w.toList.reverse) := by
    simp [hw, Position.run, hdot, hname, run_word hrest, Step.after]
  have htext : (text ++ "." ++ w).toList = text.toList ++ '.' :: w.toList := by simp
  rw [EndsInWord, htext, Position.run_append, h]
  simp [hrun, Step.after]

theorem run_text (cs read : List Char) :
    Position.run (.text read) (cs.flatMap fun c => if c = '\'' then ['\'', '\''] else [c]) =
      some ([], .text (cs.reverse ++ read)) := by
  induction cs generalizing read with
  | nil => rfl
  | cons c rest ih =>
    by_cases hc : c = '\'' <;>
      simp [List.flatMap_cons, hc, Position.run, Position.next, ih, Step.after]

theorem lexes_quoteText (s : String) : Lexes (quoteText s) [.text s] := by
  refine ⟨[], .quote s.toList.reverse, [.text s], ?_, by simp [Position.flush?], rfl⟩
  have hopen : openToken '\'' = some ([], .text []) := rfl
  simp [quoteText, Position.run, Position.next, hopen, Position.run_append, run_text, Step.after]

theorem openToken_of_isDigit (h : c.isDigit = true) : openToken c = some ([], .whole (digit c)) := by
  have hspace : isSpace c = false := by
    refine Bool.eq_false_iff.mpr fun hspace => ?_
    have hcases : c = ' ' ∨ c = '\t' ∨ c = '\n' ∨ c = '\r' ∨ c = '\x0c' := by simpa [isSpace, or_assoc] using hspace
    rcases hcases with rfl | rfl | rfl | rfl | rfl <;> exact absurd h (by decide)
  simp [openToken, hspace, not_isWordStart_of_isDigit h, h]

theorem run_whole (h : ∀ c ∈ cs, c.isDigit = true) (n : Nat) :
    Position.run (.whole n) cs = some ([], .whole (cs.foldl (fun n c => n * 10 + digit c) n)) := by
  induction cs generalizing n with
  | nil => rfl
  | cons c rest ih =>
    have hc := h c (List.mem_cons_self ..)
    have hrest := ih (fun d hd => h d (List.mem_cons_of_mem _ hd)) (n * 10 + digit c)
    simp [Position.run, Position.next, hc, hrest, Step.after]

theorem run_fraction (h : ∀ c ∈ cs, c.isDigit = true) (n places : Nat) : Position.run (.fraction n places) cs =
      some ([], .fraction (cs.foldl (fun n c => n * 10 + digit c) n) (places + cs.length)) := by
  induction cs generalizing n places with
  | nil => rfl
  | cons c rest ih =>
    have hc := h c (List.mem_cons_self ..)
    have hrest := ih (fun d hd => h d (List.mem_cons_of_mem _ hd)) (n * 10 + digit c) (places + 1)
    simp [Position.run, Position.next, hc, hrest, Step.after, Nat.add_assoc, Nat.add_comm 1]

theorem run_digits (hne : cs ≠ []) (h : ∀ c ∈ cs, c.isDigit = true) :
    Position.run .between cs = some ([], .whole (Number.valueOf cs)) := by
  cases cs with
  | nil => exact absurd rfl hne
  | cons c rest =>
    have hopen := openToken_of_isDigit (h c (List.mem_cons_self ..))
    have hrest := run_whole (fun d hd => h d (List.mem_cons_of_mem _ hd)) (digit c)
    simp only [Position.run, Position.next, hopen, Option.bind_some, hrest]
    simp [Step.after, Number.valueOf, digit]

theorem lexes_integer (hne : cs ≠ []) (h : ∀ c ∈ cs, c.isDigit = true) :
    Lexes (String.ofList cs) [.integer (Number.valueOf cs)] :=
  ⟨[], _, [.integer (Number.valueOf cs)], by simpa using run_digits hne h, rfl, rfl⟩

theorem lexes_decimal {whole fraction : List Char} (hne : whole ≠ []) (hwhole : ∀ c ∈ whole, c.isDigit = true)
    (hfraction : ∀ c ∈ fraction, c.isDigit = true) :
    Lexes (String.ofList (whole ++ '.' :: fraction))
      [.decimal (Number.valueOf (whole ++ fraction)) fraction.length] := by
  refine ⟨[], .fraction (Number.valueOf (whole ++ fraction)) fraction.length, _, ?_, rfl, rfl⟩
  have hpoint : Position.next (.whole (Number.valueOf whole)) '.' = some ([], .fraction (Number.valueOf whole) 0) := rfl
  have hvalue : fraction.foldl (fun n c => n * 10 + digit c) (Number.valueOf whole) =
      Number.valueOf (whole ++ fraction) := by simp [Number.valueOf, digit]
  simp [Position.run_append, run_digits hne hwhole, Position.run, hpoint, run_fraction hfraction, hvalue, Step.after]

end ShelfQuery.Sql.Reader
