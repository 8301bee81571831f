import ShelfQuery.Proofs.Lexer.Lexeme

set_option autoImplicit false

namespace ShelfQuery.Expression

open ShelfQuery.Text

def TokenKind.lead : TokenKind → Nat
  | .column _ => 1
  | _ => 0

/-- A lexeme of the token begins in the text `lead` characters before the place of the token; the first character of
the text has offset `start`. -/
def Token.StandsIn (t : Token) (start : Nat) (cs : List Char) : Prop :=
  ∃ before c used after, cs = before ++ c :: (used ++ after) ∧ Lexeme c used t.kind after.head? ∧
    t.pos = start + before.length + t.kind.lead

def Fault.isLexical : Fault → Bool
  | .unterminatedColumn | .emptyColumn | .unterminatedText | .nameExpected | .unexpectedCharacter _ => true
  | _ => false

def Begins (start : Nat) : Except Diagnostic Scanned → Prop
  | .ok s => s.pos = start + s.kind.lead
  | .error d => d.pos = some start ∧ d.fault.isLexical = true

theorem lead_intToken (digits : List Char) : (intToken digits).lead = 0 := by
  unfold intToken
  extract_lets n
  split <;> rfl

theorem lead_wordKind (word : List Char) : (wordKind word).lead = 0 := by
  unfold wordKind
  split <;> rfl

theorem scanColumn_begins (start : Nat) (cs : List Char) : Begins start (scanColumn start cs) := by
  unfold scanColumn
  extract_lets name
  split
  · exact ⟨rfl, rfl⟩
  · split
    · exact ⟨rfl, rfl⟩
    · rfl

theorem Lexeme.lead_eq_zero {c : Char} {used : List Char} {kind : TokenKind} {next : Option Char}
    (h : Lexeme c used kind next) (hc : c ≠ '[') : kind.lead = 0 := by
  cases h with
  | column => exact absurd rfl hc
  | int => exact lead_intToken _
  | word => exact lead_wordKind _
  | _ => rfl

theorem scanNumber_begins {c : Char} {cs : List Char} (hstart : (c.isDigit || (c == '.' && startsWithDigit cs)) = true)
    (start : Nat) : Begins start (scanNumber start (c :: cs)) := by
  obtain ⟨used, rest, kind, -, hscan, hlexeme⟩ := lexeme_of_scanNumber hstart start
  have hc : c ≠ '[' := by
    rintro rfl
    cases hstart
  rw [hscan]
  change start = start + kind.lead
  rw [hlexeme.lead_eq_zero hc, Nat.add_zero]

theorem scanWord_begins (start : Nat) (cs : List Char) : Begins start (.ok (scanWord start cs)) := by
  change start = start + (wordKind (cs.takeWhile isWordChar)).lead
  rw [lead_wordKind, Nat.add_zero]

theorem scanToken_begins (start : Nat) (c : Char) (cs : List Char) : Begins start (scanToken start c cs) := by
  unfold scanToken
  extract_lets mark refuse
  split
  case h_14 => exact scanColumn_begins start cs
  case h_15 =>
    split
    · exact ⟨rfl, rfl⟩
    · rfl
  case h_16 =>
    split
    · split
      · rfl
      · exact ⟨rfl, rfl⟩
    · split
      · next hnumber => exact scanNumber_begins hnumber start
      · split
        · exact scanWord_begins start _
        · exact ⟨rfl, rfl⟩
  all_goals first | rfl | (split <;> first | rfl | exact ⟨rfl, rfl⟩)

theorem scanToken_eq {c : Char} {used rest : List Char} {kind : TokenKind} (h : Lexeme c used kind rest.head?)
    (start : Nat) : scanToken start c (used ++ rest) = .ok ⟨kind, start + kind.lead, rest⟩ := by
  obtain ⟨p, hscan⟩ := scanToken_of_lexeme h start
  have hbegins := scanToken_begins start c (used ++ rest)
  rw [hscan] at hbegins ⊢
  obtain rfl : p = start + kind.lead := hbegins
  rfl

/-- The tokens of a text whose first character has offset `start`: white space and a lexeme, again and again, then
white space to the end. -/
inductive Tiles : Nat → List Char → List Token → Prop where
  | done {start gap} : (∀ c ∈ gap, isBlank c = true) → Tiles start gap [⟨.eof, start + gap.length⟩]
  | token {start gap c used rest kind ts} : (∀ c ∈ gap, isBlank c = true) → isBlank c = false →
      Lexeme c used kind rest.head? → Tiles (start + (gap ++ c :: used).length) rest ts →
      Tiles start (gap ++ c :: (used ++ rest)) (⟨kind, start + gap.length + kind.lead⟩ :: ts)

section

variable {start fuel : Nat} {cs gap rest : List Char} {c : Char} {ts : List Token}

theorem blank_or_token (cs : List Char) : (∀ c ∈ cs, isBlank c = true) ∨
    ∃ gap c rest, cs = gap ++ c :: rest ∧ (∀ c ∈ gap, isBlank c = true) ∧ isBlank c = false := by
  have hsplit : cs.takeWhile isBlank ++ cs.dropWhile isBlank = cs := List.takeWhile_append_dropWhile
  have hgap := forall_takeWhile isBlank cs
  have hstops := stops_dropWhile isBlank cs
  cases hdrop : cs.dropWhile isBlank with
  | nil =>
    rw [hdrop, List.append_nil] at hsplit
    exact .inl (hsplit ▸ hgap)
  | cons c rest =>
    rw [hdrop] at hsplit hstops
    exact .inr ⟨_, c, rest, hsplit.symm, hgap, by simpa [Stops] using hstops⟩

theorem scanFrom_blank (hgap : ∀ c ∈ gap, isBlank c = true) :
    scanFrom (fuel + 1) start gap = .ok [⟨.eof, start + gap.length⟩] := by
  have hend : Stops isBlank ([] : List Char).head? := rfl
  obtain ⟨htake, -⟩ := span_eq hgap hend
  rw [List.append_nil] at htake
  simp only [scanFrom, htake, List.drop_length]

theorem scanFrom_token (hgap : ∀ c ∈ gap, isBlank c = true) (hc : isBlank c = false) :
    scanFrom (fuel + 1) start (gap ++ c :: rest) = (scanToken (start + gap.length) c rest).bind fun s =>
      (scanFrom fuel (start + (gap ++ c :: rest).length - s.rest.length) s.rest).map (⟨s.kind, s.pos⟩ :: ·) := by
  have hstops : Stops isBlank (c :: rest).head? := by simp [Stops, hc]
  obtain ⟨htake, -⟩ := span_eq hgap hstops
  simp only [scanFrom, htake, List.drop_left]
  cases scanToken (start + gap.length) c rest with
  | error d => rfl
  | ok s =>
    dsimp only [Except.bind]
    generalize scanFrom fuel (start + (gap ++ c :: rest).length - s.rest.length) s.rest = later
    cases later <;> rfl

theorem offset_after (start : Nat) (gap : List Char) (c : Char) (used rest : List Char) :
    start + (gap ++ c :: (used ++ rest)).length - rest.length = start + (gap ++ c :: used).length := by
  simp only [List.length_append, List.length_cons]
  omega

/-- What comes of a text: its tokens, or a fault at one of its characters. -/
def Cuts (start : Nat) (cs : List Char) : Except Diagnostic (List Token) → Prop
  | .ok ts => Tiles start cs ts
  | .error d => d.fault.isLexical = true ∧ ∃ p, d.pos = some p ∧ p < start + cs.length

theorem scanFrom_cuts (hfuel : cs.length < fuel) : Cuts start cs (scanFrom fuel start cs) := by
  induction fuel generalizing start cs with
  | zero => cases hfuel
  | succ fuel ih =>
    rcases blank_or_token cs with hcs | ⟨gap, c, rest, rfl, hgap, hc⟩
    · rw [scanFrom_blank hcs]
      exact .done hcs
    · have hbegins := scanToken_begins (start + gap.length) c rest
      rw [scanFrom_token hgap hc]
      cases hscan : scanToken (start + gap.length) c rest with
      | error d =>
        rw [hscan] at hbegins
        exact ⟨hbegins.2, _, hbegins.1, by simp only [List.length_append, List.length_cons]; omega⟩
      | ok s =>
        obtain ⟨used, rfl, hlexeme⟩ := lexeme_of_scanToken hscan
        rw [hscan] at hbegins
        change Cuts start _ ((scanFrom fuel _ s.rest).map _)
        rw [offset_after, (hbegins : s.pos = _)]
        have hlength : s.rest.length < fuel := by
          simp only [List.length_append, List.length_cons] at hfuel
          omega
        have hlater : Cuts (start + (gap ++ c :: used).length) s.rest _ := ih hlength
        cases hrest : scanFrom fuel (start + (gap ++ c :: used).length) s.rest with
        | error d =>
          rw [hrest] at hlater
          obtain ⟨hfault, p, hp, hlt⟩ := hlater
          refine ⟨hfault, p, hp, ?_⟩
          simp only [List.length_append, List.length_cons] at hlt ⊢
          omega
        | ok ts =>
          rw [hrest] at hlater
          exact .token hgap hc hlexeme hlater

theorem scanFrom_of_tiles (h : Tiles start cs ts) (hfuel : cs.length < fuel) : scanFrom fuel start cs = .ok ts := by
  induction h generalizing fuel with
  | done hgap =>
    cases fuel with
    | zero => cases hfuel
    | succ fuel => exact scanFrom_blank hgap
  | @token start gap c used rest kind ts hgap hc hlexeme _ ih =>
    cases fuel with
    | zero => cases hfuel
    | succ fuel =>
      have hrest : rest.length < fuel := by
        simp only [List.length_append, List.length_cons] at hfuel
        omega
      rw [scanFrom_token hgap hc, scanToken_eq hlexeme]
      change (scanFrom fuel (start + (gap ++ c :: (used ++ rest)).length - rest.length) rest).map _ = _
      rw [offset_after, ih hrest]
      rfl

theorem Token.StandsIn.after {t : Token} {front : List Char} (h : t.StandsIn (start + front.length) cs) :
    t.StandsIn start (front ++ cs) := by
  obtain ⟨before, c, used, after, rfl, hlexeme, hpos⟩ := h
  refine ⟨front ++ before, c, used, after, by rw [List.append_assoc], hlexeme, ?_⟩
  rw [hpos, List.length_append]
  omega

theorem Tiles.places (h : Tiles start cs ts) :
    ∀ t ∈ ts, if t.kind.isEof then t.pos = start + cs.length else t.StandsIn start cs := by
  induction h with
  | done => exact List.forall_mem_singleton.mpr rfl
  | @token start gap c used rest kind ts _ _ hlexeme _ ih =>
    refine List.forall_mem_cons.mpr ⟨?_, fun t ht => ?_⟩
    · rw [if_neg (by simp [hlexeme.isEof_eq_false])]
      exact ⟨gap, c, used, rest, rfl, hlexeme, rfl⟩
    · have htext : gap ++ c :: (used ++ rest) = (gap ++ c :: used) ++ rest := by simp
      have hplace := ih t ht
      rw [htext]
      split
      · next heof =>
        rw [if_pos heof] at hplace
        rw [hplace, @List.length_append _ (gap ++ c :: used), Nat.add_assoc]
      · next heof =>
        rw [if_neg heof] at hplace
        exact hplace.after

theorem Tiles.lexes (h : Tiles start cs ts) : ∃ us p, ts = us ++ [⟨.eof, p⟩] ∧ Lexes cs (us.map Token.kind) := by
  induction h with
  | done hgap => exact ⟨[], _, rfl, .done hgap⟩
  | token hgap hc hlexeme _ ih =>
    obtain ⟨us, p, rfl, hlexes⟩ := ih
    exact ⟨_ :: us, p, rfl, .token hgap hc hlexeme hlexes⟩

theorem Lexes.tiles {kinds : List TokenKind} (h : Lexes cs kinds) (start : Nat) :
    ∃ us p, Tiles start cs (us ++ [⟨.eof, p⟩]) ∧ us.map Token.kind = kinds := by
  induction h generalizing start with
  | done hgap => exact ⟨[], _, .done hgap, rfl⟩
  | token hgap hc hlexeme _ ih =>
    obtain ⟨us, p, htiles, rfl⟩ := ih _
    exact ⟨_ :: us, p, .token hgap hc hlexeme htiles, rfl⟩

end

section

variable {text : String} {ts : List Token}

theorem scan_cuts (text : String) : Cuts 0 text.toList (scan text) := scanFrom_cuts (Nat.lt_succ_self _)

theorem tiles_of_scan (h : scan text = .ok ts) : Tiles 0 text.toList ts := by
  have hcuts := scan_cuts text
  rwa [h] at hcuts

theorem lexes_of_scan (h : scan text = .ok ts) : ∃ us p, ts = us ++ [⟨.eof, p⟩] ∧ Lexes text.toList (us.map Token.kind) :=
  (tiles_of_scan h).lexes

theorem scan_of_lexes {kinds : List TokenKind} (h : Lexes text.toList kinds) :
    ∃ us p, scan text = .ok (us ++ [⟨.eof, p⟩]) ∧ us.map Token.kind = kinds := by
  obtain ⟨us, p, htiles, hkinds⟩ := h.tiles 0
  exact ⟨us, p, scanFrom_of_tiles htiles (Nat.lt_succ_self _), hkinds⟩

theorem scan_places (h : scan text = .ok ts) {t : Token} (ht : t ∈ ts) :
    if t.kind.isEof then t.pos = text.toList.length else t.StandsIn 0 text.toList := by
  simpa only [Nat.zero_add] using (tiles_of_scan h).places t ht

theorem Token.StandsIn.pos_le {t : Token} {cs : List Char} (h : t.StandsIn 0 cs) : t.pos ≤ cs.length := by
  obtain ⟨before, c, used, after, rfl, hlexeme, hpos⟩ := h
  have hlead : t.kind.lead ≤ 1 := by
    unfold TokenKind.lead
    split <;> omega
  simp only [List.length_append, List.length_cons]
  omega

theorem pos_le_of_scan (h : scan text = .ok ts) {t : Token} (ht : t ∈ ts) : t.pos ≤ text.toList.length := by
  have hplace := scan_places h ht
  split at hplace
  · exact Nat.le_of_eq hplace
  · exact hplace.pos_le

theorem scan_error {d : Diagnostic} (h : scan text = .error d) : ∃ p, d.pos = some p ∧ p < text.toList.length := by
  have hcuts := scan_cuts text
  rw [h] at hcuts
  simpa only [Nat.zero_add] using hcuts.2

end

end ShelfQuery.Expression
