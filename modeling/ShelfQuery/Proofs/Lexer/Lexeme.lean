import ShelfQuery.Expression.Lexer
import ShelfQuery.Proofs.Number.Reading

set_option autoImplicit false

/-!
# Lexemes

`Lexeme c used kind next` says that `c` and the characters `used` after it spell a token of kind `kind`, provided that
`next` follows.
-/

namespace ShelfQuery.Expression

open ShelfQuery.Text

variable {used rest cs : List Char} {start : Nat} {c : Char} {kind : TokenKind} {kinds : List TokenKind}

/-- The characters after an opening quote, through the closing one, and the text that they spell. -/
inductive Quoted (quote : Char) : List Char → List Char → Prop where
  | close : Quoted quote [quote] []
  | escape (c : Char) {cs value : List Char} : Quoted quote cs value → Quoted quote ('\\' :: c :: cs) (c :: value)
  | plain {c : Char} {cs value : List Char} : c ≠ '\\' → c ≠ quote → Quoted quote cs value →
      Quoted quote (c :: cs) (c :: value)

def quoteMarks : List Char := ['"', '\'']

def singleMarks : List (Char × Mark) :=
  [('+', .plus), ('-', .minus), ('*', .star), ('/', .slash), ('(', .openParen), (')', .closeParen), (',', .comma)]

def doubleMarks : List (Char × Char × Mark) :=
  [('=', '=', .eq), ('!', '=', .ne), ('<', '=', .le), ('<', '>', .ne), ('>', '=', .ge), ('\x7b', '\x7b', .openTotal),
    ('\x7d', '\x7d', .closeTotal)]

/-- Marks of one character that may begin one of two, with the characters that would make it that. -/
def openMarks : List (Char × List Char × Mark) := [('=', ['='], .eq), ('<', ['=', '>'], .lt), ('>', ['='], .gt)]

def wordKind (word : List Char) : TokenKind :=
  match Keyword.ofWord? (String.ofList word) with
  | some k => .keyword k
  | none => .word (String.ofList word)

def intToken (digits : List Char) : TokenKind :=
  let n := Number.valueOf digits
  if n < Nat.pow 2 63 then .int n else .float (Number.Binary64.ofDecimal false n 0)

def decimalKind (whole fraction : List Char) : TokenKind :=
  .float (Number.Binary64.ofDecimal false (Number.valueOf (whole ++ fraction)) (-(fraction.length : Int)))

inductive Lexeme : Char → List Char → TokenKind → Option Char → Prop where
  | single {c m next} : (c, m) ∈ singleMarks → Lexeme c [] (.mark m) next
  | double {c d m next} : (c, d, m) ∈ doubleMarks → Lexeme c [d] (.mark m) next
  | opening {c longer m next} : (c, longer, m) ∈ openMarks → Stops longer.contains next → Lexeme c [] (.mark m) next
  | column {raw next} : ']' ∉ raw → trim raw ≠ [] → Lexeme '[' (raw ++ [']']) (.column (String.ofList (trim raw))) next
  | reference {name next} : name ≠ [] → (∀ c ∈ name, isWordChar c = true) → Stops isWordChar next →
      Lexeme '@' name (.reference (String.ofList name)) next
  | quoted {quote body value next} : quote ∈ quoteMarks → Quoted quote body value →
      Lexeme quote body (.text (String.ofList value)) next
  | int {c digits next} : (∀ d ∈ c :: digits, d.isDigit = true) → Stops (fun d => d.isDigit || d == '.') next →
      Lexeme c digits (intToken (c :: digits)) next
  | decimal {c used whole fraction next} : c :: used = whole ++ '.' :: fraction → (∀ d ∈ whole, d.isDigit = true) →
      (∀ d ∈ fraction, d.isDigit = true) → whole ++ fraction ≠ [] → Stops Char.isDigit next →
      Lexeme c used (decimalKind whole fraction) next
  | word {c rest next} : (isAlphabetic c || c == '_') = true → (∀ d ∈ rest, isWordChar d = true) →
      Stops isWordChar next → Lexeme c rest (wordKind (c :: rest)) next

theorem quoted_of_scanQuoted {quote : Char} {cs value rest : List Char} (h : scanQuoted quote cs = some (value, rest)) :
    ∃ body, cs = body ++ rest ∧ Quoted quote body value := by
  fun_induction scanQuoted quote cs generalizing value with
  | case1 | case2 => exact nomatch h
  | case3 c tail ih =>
    obtain ⟨⟨value', rest'⟩, hscan, heq⟩ := Option.map_eq_some_iff.mp h
    cases heq
    obtain ⟨body, rfl, hbody⟩ := ih hscan
    exact ⟨'\\' :: c :: body, rfl, .escape c hbody⟩
  | case4 tail hnot =>
    cases h
    exact ⟨[quote], rfl, .close⟩
  | case5 c tail hnil hcons hne ih =>
    obtain ⟨⟨value', rest'⟩, hscan, heq⟩ := Option.map_eq_some_iff.mp h
    cases heq
    obtain ⟨body, rfl, hbody⟩ := ih hscan
    refine ⟨c :: body, rfl, .plain ?_ hne hbody⟩
    rintro rfl
    cases hbody <;> simp_all

theorem scanQuoted_of_quoted {quote : Char} (hquote : quote ≠ '\\') {body value : List Char}
    (h : Quoted quote body value) (rest : List Char) : scanQuoted quote (body ++ rest) = some (value, rest) := by
  induction h with
  | close => simp [scanQuoted, hquote]
  | escape c _ ih => simp [scanQuoted, ih]
  | plain hslash hne _ ih => simp [scanQuoted, hslash, hne, ih]

theorem numberKind?_digits {digits : List Char} (h : ∀ d ∈ c :: digits, d.isDigit = true) :
    numberKind? (c :: digits) = some (intToken (c :: digits)) := by
  have hvalue : digitsValue? (c :: digits) = some (Number.valueOf (c :: digits)) := if_neg (by simpa using h)
  rw [numberKind?, hvalue, intToken, Number.parse?_digits h, Option.filter_some]
  generalize Number.valueOf (c :: digits) = n
  by_cases hsmall : n < Nat.pow 2 63 <;> simp [hsmall]

theorem numberKind?_decimal {whole fraction : List Char} (hwhole : ∀ d ∈ whole, d.isDigit = true)
    (hfraction : ∀ d ∈ fraction, d.isDigit = true) (hne : whole ++ fraction ≠ []) :
    numberKind? (whole ++ '.' :: fraction) = some (decimalKind whole fraction) := by
  have hvalue : digitsValue? (whole ++ '.' :: fraction) = none := if_pos (by simp)
  rw [numberKind?, hvalue, Number.parse?_decimal hwhole hfraction hne]
  rfl

theorem scanNumber_digits (start : Nat) {digits : List Char} (h : ∀ d ∈ c :: digits, d.isDigit = true)
    (hrest : Stops (fun d => d.isDigit || d == '.') rest.head?) :
    scanNumber start (c :: (digits ++ rest)) = .ok ⟨intToken (c :: digits), start, rest⟩ := by
  have hdigit : Stops Char.isDigit rest.head? := by
    cases rest with
    | nil => rfl
    | cons d rest => simp_all [Stops]
  obtain ⟨htake, hdrop⟩ := span_eq h hdigit
  have hnumber : takeNumber (c :: digits ++ rest) = (c :: digits, rest) := by
    unfold takeNumber Number.takeDigits
    rw [htake, hdrop]
    cases rest with
    | nil => rfl
    | cons d rest =>
      have hd : d ≠ '.' := by simp_all [Stops]
      dsimp only
      split
      · next heq => exact absurd (List.cons.inj heq).1 hd
      · rfl
  rw [← List.cons_append, scanNumber, hnumber]
  dsimp only
  rw [numberKind?_digits h]

theorem scanNumber_decimal (start : Nat) {whole fraction : List Char} (hwhole : ∀ d ∈ whole, d.isDigit = true)
    (hfraction : ∀ d ∈ fraction, d.isDigit = true) (hne : whole ++ fraction ≠ [])
    (hrest : Stops Char.isDigit rest.head?) :
    scanNumber start (whole ++ '.' :: (fraction ++ rest)) = .ok ⟨decimalKind whole fraction, start, rest⟩ := by
  have hpoint : Stops Char.isDigit ('.' :: (fraction ++ rest)).head? := rfl
  obtain ⟨htake, hdrop⟩ := span_eq hwhole hpoint
  obtain ⟨htake', hdrop'⟩ := span_eq hfraction hrest
  have hnumber : takeNumber (whole ++ '.' :: (fraction ++ rest)) = (whole ++ '.' :: fraction, rest) := by
    unfold takeNumber Number.takeDigits
    simp only [htake, hdrop, htake', hdrop']
  rw [scanNumber, hnumber]
  dsimp only
  rw [numberKind?_decimal hwhole hfraction hne]

/-- A number is never refused: what begins one is read as an integer or as a double. -/
theorem lexeme_of_scanNumber (hstart : (c.isDigit || (c == '.' && startsWithDigit cs)) = true) (start : Nat) :
    ∃ used rest kind, cs = used ++ rest ∧ scanNumber start (c :: cs) = .ok ⟨kind, start, rest⟩ ∧
      Lexeme c used kind rest.head? := by
  obtain ⟨whole, after, hsplit, hwhole, hstops⟩ := exists_span Char.isDigit (c :: cs)
  by_cases hpoint : after.head? = some '.'
  · obtain ⟨tail, rfl⟩ := List.head?_eq_some_iff.mp hpoint
    obtain ⟨fraction, rest, rfl, hfraction, hrest⟩ := exists_span Char.isDigit tail
    have hne : whole ++ fraction ≠ [] := by
      intro hnil
      obtain ⟨rfl, rfl⟩ := List.append_eq_nil_iff.mp hnil
      cases hsplit
      cases rest with
      | nil => simp [startsWithDigit] at hstart
      | cons d rest => simp_all [startsWithDigit, Stops]
    have hscan := scanNumber_decimal start hwhole hfraction hne hrest
    rw [← hsplit] at hscan
    cases whole with
    | nil =>
      cases hsplit
      exact ⟨fraction, rest, _, rfl, hscan, .decimal rfl hwhole hfraction hne hrest⟩
    | cons d whole =>
      cases hsplit
      exact ⟨whole ++ '.' :: fraction, rest, _, by simp, hscan, .decimal rfl hwhole hfraction hne hrest⟩
  · have hrest : Stops (fun d => d.isDigit || d == '.') after.head? := by
      cases after with
      | nil => rfl
      | cons d after => simp_all [Stops]
    cases whole with
    | nil =>
      cases hsplit
      simp_all [Stops]
    | cons d whole =>
      cases hsplit
      exact ⟨whole, after, _, rfl, scanNumber_digits start hwhole hrest, .int hwhole hrest⟩

theorem lexeme_of_scanColumn {s : Scanned} (h : scanColumn start cs = .ok s) :
    ∃ used, cs = used ++ s.rest ∧ Lexeme '[' used s.kind s.rest.head? := by
  have hraw := forall_takeWhile (· ≠ ']') cs
  have hstops := stops_dropWhile (· ≠ ']') cs
  have hsplit : cs.takeWhile (· ≠ ']') ++ cs.dropWhile (· ≠ ']') = cs := List.takeWhile_append_dropWhile
  simp only [scanColumn, drop_takeWhile_length] at h
  generalize cs.takeWhile (· ≠ ']') = raw at h hraw hsplit
  split at h
  · cases h
  · next d rest hdrop =>
    rw [hdrop] at hsplit hstops
    obtain rfl : d = ']' := by simpa [Stops] using hstops
    split at h
    · cases h
    · next htrim =>
      cases h
      refine ⟨raw ++ [']'], by simpa using hsplit.symm, .column (fun hmem => ?_) (by simpa using htrim)⟩
      simpa using hraw _ hmem

theorem isWordChar_of_start (h : (isAlphabetic c || c == '_') = true) : isWordChar c = true := by
  rw [isWordChar, isAlphanumeric]
  cases hc : isAlphabetic c <;> simp_all

theorem lexeme_of_scanWord (hstart : (isAlphabetic c || c == '_') = true) :
    ∃ used, cs = used ++ (scanWord start (c :: cs)).rest ∧
      Lexeme c used (scanWord start (c :: cs)).kind (scanWord start (c :: cs)).rest.head? := by
  have hword : isWordChar c = true := isWordChar_of_start hstart
  refine ⟨cs.takeWhile isWordChar, ?_, ?_⟩
  · simp [scanWord, hword, List.takeWhile_append_dropWhile]
  · simp only [scanWord, hword, List.takeWhile_cons, List.dropWhile_cons, if_true]
    exact .word hstart (forall_takeWhile _ _) (stops_dropWhile _ _)

section Marks

variable {s : Scanned} {m : Mark}

theorem lexeme_of_single (hm : (c, m) ∈ singleMarks)
    (h : (.ok ⟨.mark m, start, cs⟩ : Except Diagnostic Scanned) = .ok s) :
    ∃ used, cs = used ++ s.rest ∧ Lexeme c used s.kind s.rest.head? := by
  cases h
  exact ⟨[], rfl, .single hm⟩

theorem lexeme_of_double {d : Char} (hm : (c, d, m) ∈ doubleMarks)
    (h : (.ok ⟨.mark m, start, rest⟩ : Except Diagnostic Scanned) = .ok s) :
    ∃ used, d :: rest = used ++ s.rest ∧ Lexeme c used s.kind s.rest.head? := by
  cases h
  exact ⟨[d], rfl, .double hm⟩

theorem lexeme_of_opening {longer : List Char} (hm : (c, longer, m) ∈ openMarks)
    (hlonger : ∀ d ∈ longer, ∀ rest, cs ≠ d :: rest)
    (h : (.ok ⟨.mark m, start, cs⟩ : Except Diagnostic Scanned) = .ok s) :
    ∃ used, cs = used ++ s.rest ∧ Lexeme c used s.kind s.rest.head? := by
  cases h
  exact ⟨[], rfl, .opening hm (stops_of_ne hlonger)⟩

end Marks

theorem lexeme_of_scanToken {s : Scanned}
    (h : scanToken start c cs = .ok s) : ∃ used, cs = used ++ s.rest ∧ Lexeme c used s.kind s.rest.head? := by
  unfold scanToken at h
  dsimp only at h
  split at h
  · exact lexeme_of_single (by decide) h
  · exact lexeme_of_single (by decide) h
  · exact lexeme_of_single (by decide) h
  · exact lexeme_of_single (by decide) h
  · exact lexeme_of_single (by decide) h
  · exact lexeme_of_single (by decide) h
  · exact lexeme_of_single (by decide) h
  · -- =
    split at h
    · exact lexeme_of_double (by decide) h
    · next hnext => exact lexeme_of_opening (by decide) (List.forall_mem_singleton.mpr hnext) h
  · -- !
    split at h
    · exact lexeme_of_double (by decide) h
    · cases h
  · -- <
    split at h
    · exact lexeme_of_double (by decide) h
    · exact lexeme_of_double (by decide) h
    · next heq hgt =>
      exact lexeme_of_opening (by decide) (List.forall_mem_cons.mpr ⟨heq, List.forall_mem_singleton.mpr hgt⟩) h
  · -- >
    split at h
    · exact lexeme_of_double (by decide) h
    · next hnext => exact lexeme_of_opening (by decide) (List.forall_mem_singleton.mpr hnext) h
  · split at h
    · exact lexeme_of_double (by decide) h
    · cases h
  · split at h
    · exact lexeme_of_double (by decide) h
    · cases h
  · exact lexeme_of_scanColumn h
  · split at h
    · cases h
    · next hname =>
      cases h
      exact ⟨cs.takeWhile isWordChar, List.takeWhile_append_dropWhile.symm,
        .reference (by simpa using hname) (forall_takeWhile _ _) (stops_dropWhile _ _)⟩
  · split at h
    · next hquote =>
      split at h
      · next value rest hscan =>
        cases h
        obtain ⟨body, hbody, hquoted⟩ := quoted_of_scanQuoted hscan
        exact ⟨body, hbody, .quoted (by simpa [quoteMarks] using hquote) hquoted⟩
      · cases h
    · split at h
      · next hnumber =>
        obtain ⟨used, rest, kind, hused, hscan, hlexeme⟩ := lexeme_of_scanNumber hnumber start
        cases hscan.symm.trans h
        exact ⟨used, hused, hlexeme⟩
      · split at h
        · next hword =>
          cases h
          exact lexeme_of_scanWord hword
        · cases h

/-- No lexeme is lengthened by a parenthesis. -/
theorem Lexeme.follow {next : Option Char}
    (h : Lexeme c used kind next) {d : Char} (hd : d ∈ ['(', ')']) : Lexeme c used kind (some d) := by
  have hword : Stops isWordChar (some d) := by
    rcases List.mem_cons.mp hd with rfl | hd
    · rfl
    · obtain rfl := List.mem_singleton.mp hd
      rfl
  have hdigit : Stops Char.isDigit (some d) ∧ Stops (fun d => d.isDigit || d == '.') (some d) := by
    rcases List.mem_cons.mp hd with rfl | hd
    · exact ⟨rfl, rfl⟩
    · obtain rfl := List.mem_singleton.mp hd
      exact ⟨rfl, rfl⟩
  cases h with
  | single hm => exact .single hm
  | double hm => exact .double hm
  | opening hm =>
    refine .opening hm ?_
    simp [openMarks] at hm hd
    rcases hm with ⟨-, rfl, -⟩ | ⟨-, rfl, -⟩ | ⟨-, rfl, -⟩ <;> rcases hd with rfl | rfl <;> rfl
  | column hraw htrim => exact .column hraw htrim
  | reference hname hall => exact .reference hname hall hword
  | quoted hquote hbody => exact .quoted hquote hbody
  | int hdigits => exact .int hdigits hdigit.2
  | decimal hsplit hwhole hfraction hne => exact .decimal hsplit hwhole hfraction hne hdigit.1
  | word hstart hall => exact .word hstart hall hword

def signs : List Char := ['+', '-', '*', '/', '(', ')', ',', '=', '!', '<', '>', '\x7b', '\x7d', '[', '@']

theorem scanToken_quoted (hc : c ∈ quoteMarks) (start : Nat) (cs : List Char) : scanToken start c cs =
      match scanQuoted c cs with
      | some (value, rest) => .ok ⟨.text (String.ofList value), start, rest⟩
      | none => .error (.placed .unterminatedText start) := by
  simp only [quoteMarks, List.mem_cons, List.not_mem_nil, or_false] at hc
  rcases hc with rfl | rfl <;> rfl

theorem scanToken_plain (hc : c ∉ signs ++ quoteMarks) (start : Nat) (cs : List Char) : scanToken start c cs =
      if c.isDigit || (c == '.' && startsWithDigit cs) then scanNumber start (c :: cs)
      else if isAlphabetic c || c == '_' then .ok (scanWord start (c :: cs))
      else .error (.placed (.unexpectedCharacter c) start) := by
  unfold scanToken
  dsimp only
  split
  case h_16 =>
    rw [if_neg]
    rintro (rfl | rfl) <;> exact absurd (by decide) hc
  all_goals exact absurd (by decide) hc

theorem scanColumn_eq (start : Nat) {raw : List Char} (hraw : ']' ∉ raw) (htrim : trim raw ≠ []) (rest : List Char) :
    scanColumn start (raw ++ [']'] ++ rest) = .ok ⟨.column (String.ofList (trim raw)), start + 1, rest⟩ := by
  have hall : ∀ c ∈ raw, decide (c ≠ ']') = true := by
    intro c hc
    have hne : c ≠ ']' := fun heq => hraw (heq ▸ hc)
    simpa using hne
  have hstops : Stops (fun c => decide (c ≠ ']')) (']' :: rest).head? := rfl
  obtain ⟨htake, -⟩ := span_eq hall hstops
  simp only [scanColumn, List.append_assoc, List.cons_append, List.nil_append, htake, List.drop_left]
  rw [if_neg (by simpa using htrim)]

theorem scanWord_eq (start : Nat) {word rest : List Char} (hword : ∀ c ∈ word, isWordChar c = true)
    (hrest : Stops isWordChar rest.head?) : scanWord start (word ++ rest) = ⟨wordKind word, start, rest⟩ := by
  obtain ⟨htake, hdrop⟩ := span_eq hword hrest
  simp only [scanWord, htake, hdrop]
  rfl

theorem scanToken_of_lexeme (h : Lexeme c used kind rest.head?) (start : Nat) :
    ∃ p, scanToken start c (used ++ rest) = .ok ⟨kind, p, rest⟩ := by
  cases h with
  | single hm =>
    simp only [singleMarks, List.mem_cons, List.not_mem_nil, or_false, Prod.mk.injEq] at hm
    rcases hm with ⟨rfl, rfl⟩ | ⟨rfl, rfl⟩ | ⟨rfl, rfl⟩ | ⟨rfl, rfl⟩ | ⟨rfl, rfl⟩ | ⟨rfl, rfl⟩ | ⟨rfl, rfl⟩ <;>
      exact ⟨start, rfl⟩
  | double hm =>
    simp only [doubleMarks, List.mem_cons, List.not_mem_nil, or_false, Prod.mk.injEq] at hm
    rcases hm with ⟨rfl, rfl, rfl⟩ | ⟨rfl, rfl, rfl⟩ | ⟨rfl, rfl, rfl⟩ | ⟨rfl, rfl, rfl⟩ | ⟨rfl, rfl, rfl⟩ |
      ⟨rfl, rfl, rfl⟩ | ⟨rfl, rfl, rfl⟩ <;> exact ⟨start, rfl⟩
  | opening hm hnext =>
    refine ⟨start, ?_⟩
    simp only [openMarks, List.mem_cons, List.not_mem_nil, or_false, Prod.mk.injEq] at hm
    cases rest with
    | nil => rcases hm with ⟨rfl, rfl, rfl⟩ | ⟨rfl, rfl, rfl⟩ | ⟨rfl, rfl, rfl⟩ <;> rfl
    | cons d rest =>
      rcases hm with ⟨rfl, rfl, rfl⟩ | ⟨rfl, rfl, rfl⟩ | ⟨rfl, rfl, rfl⟩ <;> simp_all [Stops, scanToken]
  | column hraw htrim => exact ⟨start + 1, scanColumn_eq start hraw htrim rest⟩
  | reference hname hall hnext =>
    obtain ⟨htake, hdrop⟩ := span_eq hall hnext
    exact ⟨start, by simp [scanToken, htake, hdrop, hname]⟩
  | quoted hquote hbody =>
    have hslash : c ≠ '\\' := by
      rintro rfl
      exact absurd hquote (by decide)
    refine ⟨start, ?_⟩
    rw [scanToken_quoted hquote, scanQuoted_of_quoted hslash hbody]
  | int hdigits hnext =>
    have hc : c.isDigit = true := hdigits c (List.mem_cons_self ..)
    refine ⟨start, ?_⟩
    rw [scanToken_plain (not_mem_of_class Char.isDigit rfl hc), if_pos (by rw [hc]; rfl),
      scanNumber_digits start hdigits hnext]
  | @decimal _ _ whole fraction _ hsplit hwhole hfraction hne hnext =>
    have hc : (c.isDigit || (c == '.' && startsWithDigit (used ++ rest))) = true := by
      cases whole with
      | nil =>
        cases hsplit
        cases used with
        | nil => exact absurd rfl hne
        | cons d used => simp [startsWithDigit, hfraction d]
      | cons d whole =>
        cases hsplit
        simp [hwhole c]
    have hsign : c ∉ signs ++ quoteMarks := by
      refine not_mem_of_class (fun c => c.isDigit || c == '.') rfl ?_
      cases hdigit : c.isDigit <;> simp_all
    refine ⟨start, ?_⟩
    rw [scanToken_plain hsign, if_pos hc, ← List.cons_append, hsplit, List.append_assoc, List.cons_append,
      scanNumber_decimal start hwhole hfraction hne hnext]
  | word hstart hall hnext =>
    have hdigit : c.isDigit = false := by
      rw [Bool.eq_false_iff]
      intro hdigit
      rw [not_isAlphabetic_of_isDigit hdigit, Bool.false_or, beq_iff_eq] at hstart
      subst hstart
      exact absurd hdigit (by decide)
    have hpoint : (c == '.') = false := by
      rw [beq_eq_false_iff_ne]
      rintro rfl
      exact absurd hstart (by decide)
    refine ⟨start, ?_⟩
    rw [scanToken_plain (not_mem_of_class (fun c => isAlphabetic c || c == '_') rfl hstart), hdigit, hpoint,
      if_neg (by simp), if_pos hstart, ← List.cons_append,
      scanWord_eq start (List.forall_mem_cons.mpr ⟨isWordChar_of_start hstart, hall⟩) hnext]

inductive Lexes : List Char → List TokenKind → Prop where
  | done {gap} : (∀ c ∈ gap, isBlank c = true) → Lexes gap []
  | token {gap c used rest kind kinds} : (∀ c ∈ gap, isBlank c = true) → isBlank c = false →
      Lexeme c used kind rest.head? → Lexes rest kinds → Lexes (gap ++ c :: (used ++ rest)) (kind :: kinds)

theorem Lexeme.isEof_eq_false {next : Option Char} (h : Lexeme c used kind next) : kind.isEof = false := by
  cases h with
  | int =>
    unfold intToken
    dsimp only
    split <;> rfl
  | word =>
    unfold wordKind
    split <;> rfl
  | _ => rfl

theorem Lexes.isEof_eq_false (h : Lexes cs kinds) : ∀ kind ∈ kinds, kind.isEof = false := by
  induction h with
  | done => nofun
  | token _ _ hlexeme _ ih => exact List.forall_mem_cons.mpr ⟨hlexeme.isEof_eq_false, ih⟩

theorem Lexes.blank {gap cs : List Char} (hgap : ∀ c ∈ gap, isBlank c = true)
    (h : Lexes cs kinds) : Lexes (gap ++ cs) kinds := by
  cases h with
  | done hcs => exact .done (List.forall_mem_append.mpr ⟨hgap, hcs⟩)
  | token hcs hc hlexeme hrest =>
    rw [← List.append_assoc]
    exact .token (List.forall_mem_append.mpr ⟨hgap, hcs⟩) hc hlexeme hrest

/-- Texts can be joined where the second one begins with a parenthesis. -/
theorem Lexes.append {kinds kinds' : List TokenKind} {d : Char} (h : Lexes cs kinds)
    (hd : d ∈ ['(', ')']) (hrest : Lexes (d :: rest) kinds') : Lexes (cs ++ d :: rest) (kinds ++ kinds') := by
  induction h with
  | done hgap => exact hrest.blank hgap
  | @token gap c used tail kind kinds hgap hc hlexeme _ ih =>
    rw [List.append_assoc, List.cons_append, List.append_assoc]
    refine .token hgap hc ?_ ih
    cases tail with
    | nil => exact hlexeme.follow hd
    | cons e tail => exact hlexeme

end ShelfQuery.Expression
