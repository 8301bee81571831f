import ShelfQuery.Proofs.Lexer.Offsets

set_option autoImplicit false

namespace ShelfQuery.Expression

open ShelfQuery.Text

/-- Where the token is a number, the lexeme is read as it. -/
def TokenKind.Reads (lexeme : List Char) : TokenKind → Prop
  | .int n => ∃ value : Nat, digitsValue? lexeme = some value ∧ n = value ∧ value < Nat.pow 2 63
  | .float x => Number.parse? (String.ofList lexeme) = some x
  | _ => True

theorem reads_intToken {c : Char} {digits : List Char} (h : ∀ d ∈ c :: digits, d.isDigit = true) :
    (intToken (c :: digits)).Reads (c :: digits) := by
  unfold intToken
  extract_lets n
  split
  · next hsmall =>
    refine ⟨n, if_neg ?_, rfl, hsmall⟩
    simpa using h
  · exact Number.parse?_digits h

theorem Lexeme.reads {c : Char} {used : List Char} {kind : TokenKind} {next : Option Char}
    (h : Lexeme c used kind next) : kind.Reads (c :: used) := by
  cases h with
  | int hdigits => exact reads_intToken hdigits
  | decimal hsplit hwhole hfraction hne =>
    rw [hsplit]
    exact Number.parse?_decimal hwhole hfraction hne
  | word =>
    unfold wordKind
    split <;> trivial
  | _ => trivial

/-- White space, the lexeme after it, and the token of the lexeme. -/
structure Tile where
  gap : List Char
  first : Char
  used : List Char
  token : Token

namespace Tile

def chars (t : Tile) : List Char := t.gap ++ t.first :: t.used

/-- The tile stands after `before` characters and `next` follows it. -/
structure Fits (t : Tile) (before : Nat) (next : Option Char) : Prop where
  gap : ∀ c ∈ t.gap, isBlank c = true
  first : isBlank t.first = false
  lexeme : Lexeme t.first t.used t.token.kind next
  reads : t.token.kind.Reads (t.first :: t.used)
  notEof : t.token.kind.isEof = false
  pos : t.token.pos = before + t.gap.length + t.token.kind.lead

end Tile

section

variable {start : Nat} {cs : List Char} {ts : List Token}

theorem Tiles.exists_tiles (h : Tiles start cs ts) : ∃ tiles last, cs = tiles.flatMap Tile.chars ++ last ∧
    (∀ c ∈ last, isBlank c = true) ∧ ts = tiles.map Tile.token ++ [⟨.eof, start + cs.length⟩] ∧
    ∀ before t after, tiles = before ++ t :: after →
      t.Fits (start + (before.flatMap Tile.chars).length) (after.flatMap Tile.chars ++ last).head? := by
  induction h with
  | @done start gap hgap => exact ⟨[], gap, rfl, hgap, rfl, by simp⟩
  | @token start gap c used rest kind ts hgap hc hlexeme _ ih =>
    obtain ⟨tiles, last, rfl, hlast, rfl, hfits⟩ := ih
    let tile : Tile := ⟨gap, c, used, ⟨kind, start + gap.length + kind.lead⟩⟩
    have hlength : (tile.chars ++ (tiles.flatMap Tile.chars ++ last)).length =
        (gap ++ c :: used).length + (tiles.flatMap Tile.chars ++ last).length := List.length_append
    refine ⟨tile :: tiles, last, by simp [tile, Tile.chars], hlast, ?_, ?_⟩
    · simp [tile]
      omega
    · intro before t after heq
      cases before with
      | nil =>
        cases heq
        exact ⟨hgap, hc, hlexeme, hlexeme.reads, hlexeme.isEof_eq_false, rfl⟩
      | cons _ before =>
        cases heq
        have hfit := hfits before t after rfl
        rwa [Nat.add_assoc, ← List.length_append] at hfit

theorem Lexeme.lead_le {c : Char} {used : List Char} {kind : TokenKind} {next : Option Char}
    (h : Lexeme c used kind next) : kind.lead ≤ used.length := by
  cases h with
  | column => simp [TokenKind.lead]
  | int => simp [lead_intToken]
  | word => simp [lead_wordKind]
  | _ => exact Nat.zero_le _

theorem Tiles.increasing (h : Tiles start cs ts) : (∀ t ∈ ts, start ≤ t.pos) ∧ ts.Pairwise (·.pos < ·.pos) := by
  induction h with
  | done => simp
  | token _ _ hlexeme _ ih =>
    have hlead := hlexeme.lead_le
    simp only [List.length_append, List.length_cons] at ih
    refine ⟨List.forall_mem_cons.mpr ⟨by dsimp only; omega, fun t ht => ?_⟩, .cons (fun t ht => ?_) ih.2⟩
    · have hlater := ih.1 t ht
      omega
    · have hlater := ih.1 t ht
      dsimp only
      omega

end

/-- More fuel than there are characters is never used up. -/
theorem scanFrom_fuel {fuel fuel' start : Nat} {cs : List Char} (h : cs.length < fuel) (h' : cs.length < fuel') :
    scanFrom fuel start cs = scanFrom fuel' start cs := by
  induction fuel generalizing fuel' start cs with
  | zero => cases h
  | succ fuel ih =>
    cases fuel' with
    | zero => cases h'
    | succ fuel' =>
      rcases blank_or_token cs with hcs | ⟨gap, c, rest, rfl, hgap, hc⟩
      · rw [scanFrom_blank hcs, scanFrom_blank hcs]
      · rw [scanFrom_token hgap hc, scanFrom_token hgap hc]
        cases hscan : scanToken (start + gap.length) c rest with
        | error d => rfl
        | ok s =>
          obtain ⟨used, rfl, -⟩ := lexeme_of_scanToken hscan
          simp only [List.length_append, List.length_cons] at h h'
          change (scanFrom fuel _ s.rest).map _ = (scanFrom fuel' _ s.rest).map _
          exact congrArg (Except.map _) (ih (by omega) (by omega))

theorem head?_message {fault : Fault} (h : fault.isLexical = true) :
    fault.message.toList.head? = some 'U' ∨ fault.message.toList.head? = some 'E' := by
  cases fault with
  | unterminatedColumn | unterminatedText => exact .inl (by decide)
  | emptyColumn | nameExpected => exact .inr (by decide)
  | unexpectedCharacter c =>
    left
    change ("Unexpected character '" ++ c.toString ++ "'").toList.head? = some 'U'
    simp
  | _ => cases h

/-- Every text is cut into tokens or refused, whatever the fuel beyond its length. Where it is cut, it is made of tiles in
a row and white space after them. Numbers are never refused. -/
theorem scan_tiles (text : String) :
    (∀ fuel, text.toList.length < fuel → scanFrom fuel 0 text.toList = scan text) ∧
    (∀ ts, scan text = .ok ts → ∃ tiles last, text.toList = tiles.flatMap Tile.chars ++ last ∧
      (∀ c ∈ last, isBlank c = true) ∧ ts = tiles.map Tile.token ++ [⟨.eof, text.toList.length⟩] ∧
      ts.Pairwise (·.pos < ·.pos) ∧
      ∀ before t after, tiles = before ++ t :: after →
        t.Fits (before.flatMap Tile.chars).length (after.flatMap Tile.chars ++ last).head?) ∧
    (∀ d, scan text = .error d → ∀ s, d.fault.message ≠ "Invalid number '" ++ s ++ "'") := by
  refine ⟨fun fuel hfuel => scanFrom_fuel hfuel (Nat.lt_succ_self _), fun ts h => ?_, fun d h s heq => ?_⟩
  · have htiles := tiles_of_scan h
    obtain ⟨tiles, last, htext, hlast, hts, hfits⟩ := htiles.exists_tiles
    simp only [Nat.zero_add] at hts hfits
    exact ⟨tiles, last, htext, hlast, hts, htiles.increasing.2, hfits⟩
  · have hcuts := scan_cuts text
    rw [h] at hcuts
    have hhead := head?_message hcuts.1
    rw [heq] at hhead
    simp at hhead

/-- A column with white space in its brackets, two marks in one, and a number that begins with a point and ends at a
letter. -/
theorem scan_tiles_half :
    let ts : List Token := [⟨.column "a", 1⟩, ⟨.mark .le, 6⟩, ⟨decimalKind [] ['5'], 8⟩, ⟨.word "x", 10⟩]
    scan "[ a ] <=.5x " = .ok (ts ++ [⟨.eof, 12⟩]) ∧ ∃ (tiles : List Tile) (last : List Char),
      "[ a ] <=.5x ".toList = tiles.flatMap Tile.chars ++ last ∧ tiles.map Tile.token = ts := by
  intro ts
  have hscan : scan "[ a ] <=.5x " = .ok (ts ++ [⟨.eof, 12⟩]) := rfl
  obtain ⟨tiles, last, htext, -, hts, -⟩ := (scan_tiles _).2.1 _ hscan
  exact ⟨hscan, tiles, last, htext, (List.append_inj' hts rfl).1.symm⟩

end ShelfQuery.Expression
