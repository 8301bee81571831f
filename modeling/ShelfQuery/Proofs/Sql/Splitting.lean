import ShelfQuery.Proofs.Sql.Reader.Token
import ShelfQuery.Schema.Table

set_option autoImplicit false

/-!
# Splitting a text into tokens

Only what SQLite and PostgreSQL cut alike is accepted. Comments, quoted names, prefixes of quoted texts, exponents and
runs of signs that are no operator are refused.
-/

namespace ShelfQuery.Sql

open ShelfQuery.Schema

namespace Splitting

/-- The kinds of tokens of several characters. `quote` is a text after a quote, which ends it unless
another one follows. -/
inductive Kind where
  | word | whole | fraction | sign | text | quote

def signs : List Char := ['.', '+', '-', '*', '/', '%', '|', '=', '!', '<', '>']

def isSign (c : Char) : Bool := signs.contains c

def operators : List String := [".", "+", "-", "*", "/", "%", "||", "=", "!=", "<", "<=", ">", ">="]

namespace Kind

def ofStart? (c : Char) : Option Kind :=
  if isWordStart c then some .word
  else if c.isDigit then some .whole
  else if c = '\'' then some .text
  else if isSign c then some .sign
  else none

def next? : Kind → Char → Option Kind
  | .word, c => if isWordChar c then some .word else none
  | .whole, c => if c.isDigit then some .whole else if c = '.' then some .fraction else none
  | .fraction, c => if c.isDigit then some .fraction else none
  | .sign, c => if isSign c then some .sign else none
  | .text, c => some (if c = '\'' then .quote else .text)
  | .quote, c => if c = '\'' then some .text else none

def mayEnd (read : List Char) : Kind → Char → Bool
  | .word, c => c != '\''
  | .whole, c => !isWordStart c
  | .fraction, c => !isWordStart c && c != '.'
  | .sign, c => operators.contains (String.ofList read.reverse) && !(read == ['.'] && c.isDigit)
  | .text, _ => false
  | .quote, _ => true

end Kind

/-- The tokens that have ended and the characters of the one that has not, each with the last first. -/
structure State where
  done : List String := []
  current : Option (Kind × List Char) := none

def start (done : List String) (c : Char) : Option State :=
  match Kind.ofStart? c with
  | some k => some ⟨done, some (k, [c])⟩
  | none =>
    if c = ' ' then some { done }
    else if ['(', ')', ','].contains c then some { done := String.singleton c :: done }
    else none

def step (s : State) (c : Char) : Option State :=
  match s.current with
  | none => start s.done c
  | some (k, read) =>
    match k.next? c with
    | some k => some { s with current := some (k, c :: read) }
    | none => if k.mayEnd read c then start (String.ofList read.reverse :: s.done) c else none

/-- The tokens of a text. The end of a text ends a token as a blank does. -/
def split? (text : String) : Option (List String) :=
  ((text.toList ++ [' ']).foldlM step {}).bind fun s => if s.current.isNone then some s.done.reverse else none

def isBreak (c : Char) : Bool := [' ', ')', ','].contains c

/-- `text` is split into `ts` if one of the characters `P` follows. -/
def Splits (P : Char → Bool) (text : String) (ts : List String) : Prop :=
  ∀ done c, P c = true → (text.toList.foldlM step { done }).bind (step · c) = start (ts.reverse ++ done) c

/-- What begins a text, or follows it if it is empty, is one of the characters `P`. -/
def Leads (P Q : Char → Bool) (text : String) : Prop := ∀ c, Q c = true → (text.toList ++ [c]).head?.all P = true

section

variable {P Q R : Char → Bool} {a b : String} {ts us : List String}

theorem Leads.of_head {c : Char} (h : a.toList.head? = some c) (hc : P c = true) : Leads P Q a := by
  intro d _
  simp [List.head?_append, h, hc]

theorem Leads.append (h : a.toList.head?.any P = true) : Leads P Q (a ++ b) := by
  cases hhead : a.toList.head? with
  | none => simp [hhead] at h
  | some c => exact .of_head (c := c) (by simp [List.head?_append, hhead]) (by simpa [hhead] using h)

theorem Leads.always : Leads (fun _ => true) Q a := by
  intro c _
  cases (a.toList ++ [c]).head? <;> rfl

theorem Splits.mono (h : Splits P a ts) (hle : ∀ c, Q c = true → P c = true) : Splits Q a ts :=
  fun done c hc => h done c (hle c hc)

theorem splits_empty : Splits P "" [] := fun _ _ _ => rfl

theorem Splits.append (h : Splits P a ts) (h' : Splits Q b us) (hb : Leads P Q b) : Splits Q (a ++ b) (ts ++ us) := by
  intro done c hc
  have hlead := hb c hc
  have hrest := h' (ts.reverse ++ done) c hc
  rw [List.reverse_append, List.append_assoc, ← hrest, String.toList_append, List.foldlM_append]
  -- the first character after `a` is read as if it stood between tokens
  cases hcs : b.toList with
  | nil =>
    rw [hcs] at hlead
    simpa [step] using h done c (by simpa using hlead)
  | cons d rest =>
    rw [hcs] at hlead
    have hfirst := h done d (by simpa using hlead)
    simp only [List.foldlM_cons, Option.bind_eq_bind, ← Option.bind_assoc, hfirst]
    rfl

theorem Splits.token {k : Kind} (h : ∀ done, a.toList.foldlM step { done } = some ⟨done, some (k, a.toList.reverse)⟩)
    (hend : ∀ c, P c = true → k.next? c = none ∧ k.mayEnd a.toList.reverse c = true) : Splits P a [a] := by
  intro done c hc
  obtain ⟨hnext, hmay⟩ := hend c hc
  simp [h, step, hnext, hmay]

theorem split?_of_splits (h : Splits isBreak a ts) : split? a = some ts := by
  have hblank : start (ts.reverse ++ []) ' ' = some { done := ts.reverse ++ [] } := rfl
  have hend : (a.toList ++ [' ']).foldlM step {} = some { done := ts.reverse ++ [] } := by
    rw [← hblank, ← h [] ' ' rfl, List.foldlM_append]
    simp
  simp [split?, hend]

end

theorem foldlM_step {k : Kind} {cs : List Char} (h : ∀ c ∈ cs, k.next? c = some k) (done : List String) (read : List Char) :
    cs.foldlM step ⟨done, some (k, read)⟩ = some ⟨done, some (k, cs.reverse ++ read)⟩ := by
  induction cs generalizing read with
  | nil => rfl
  | cons c cs ih =>
    have hc := h c (List.mem_cons_self ..)
    have hcs := ih (fun d hd => h d (List.mem_cons_of_mem _ hd)) (c :: read)
    simp [step, hc, hcs]

theorem foldlM_token {k : Kind} {c : Char} {cs : List Char} (hc : Kind.ofStart? c = some k)
    (h : ∀ d ∈ cs, k.next? d = some k) (done : List String) :
    (c :: cs).foldlM step { done } = some ⟨done, some (k, (c :: cs).reverse)⟩ := by
  have hstart : step { done } c = some ⟨done, some (k, [c])⟩ := by simp [step, start, hc]
  rw [List.foldlM_cons, hstart, List.reverse_cons]
  exact foldlM_step h done [c]

theorem not_isSign {p : Char → Bool} (hp : signs.all (!p ·) = true) {c : Char} (h : p c = true) : isSign c = false := by
  refine Bool.eq_false_iff.mpr fun hsign => ?_
  have hc := List.all_eq_true.mp hp c (by simpa [isSign] using hsign)
  simp [h] at hc

theorem isWordStart_of_isNameStart {c : Char} (h : isNameStart c = true) : isWordStart c = true := by
  simp only [isWordStart, Bool.or_eq_true]
  exact .inl (by simpa [isNameStart] using h)

theorem isWordChar_of_isNameChar {c : Char} (h : isNameChar c = true) : isWordChar c = true := by
  simp only [isWordChar, Bool.or_eq_true]
  exact .inl (.inl (by simpa [isNameChar] using h))

theorem splits_name {name : String} (h : isIdentifier name = true) :
    Splits (fun c => !isWordChar c && c != '\'') name [name] := by
  unfold isIdentifier at h
  split at h
  · cases h
  · next c rest hname =>
    simp only [Bool.and_eq_true, List.all_eq_true] at h
    refine .token (k := .word) ?_ fun d hd => ?_
    · rw [hname]
      refine foldlM_token ?_ fun d hd => ?_
      · simp [Kind.ofStart?, isWordStart_of_isNameStart h.1]
      · simp [Kind.next?, isWordChar_of_isNameChar (h.2 d hd)]
    · simpa [Kind.next?, Kind.mayEnd] using hd

theorem isBreak_cases {c : Char} (h : isBreak c = true) : c = ' ' ∨ c = ')' ∨ c = ',' := by
  simpa [isBreak] using h

section

variable {cs whole fraction : List Char}

theorem foldlM_whole (hne : cs ≠ []) (h : ∀ c ∈ cs, c.isDigit = true) (done : List String) :
    cs.foldlM step { done } = some ⟨done, some (.whole, cs.reverse)⟩ := by
  obtain ⟨c, cs, rfl⟩ := List.exists_cons_of_ne_nil hne
  have hc := h c (List.mem_cons_self ..)
  refine foldlM_token ?_ (fun d hd => ?_) done
  · simp [Kind.ofStart?, Reader.not_isWordStart_of_isDigit hc, hc]
  · simp [Kind.next?, h d (List.mem_cons_of_mem _ hd)]

theorem splits_whole (hne : cs ≠ []) (h : ∀ c ∈ cs, c.isDigit = true) :
    Splits isBreak (String.ofList cs) [String.ofList cs] := by
  refine .token (k := .whole) ?_ fun c hc => ?_
  · rw [String.toList_ofList]
    exact foldlM_whole hne h
  · rcases isBreak_cases hc with rfl | rfl | rfl <;> exact ⟨rfl, rfl⟩

theorem splits_fraction (hne : whole ≠ []) (hwhole : ∀ c ∈ whole, c.isDigit = true)
    (hfraction : ∀ c ∈ fraction, c.isDigit = true) :
    Splits isBreak (String.ofList (whole ++ '.' :: fraction)) [String.ofList (whole ++ '.' :: fraction)] := by
  refine .token (k := .fraction) ?_ fun c hc => ?_
  · intro done
    have hpoint (read : List Char) :
        step ⟨done, some (.whole, read)⟩ '.' = some ⟨done, some (.fraction, '.' :: read)⟩ := rfl
    rw [String.toList_ofList, List.foldlM_append, foldlM_whole hne hwhole, Option.bind_eq_bind, Option.bind_some,
      List.foldlM_cons, hpoint, Option.bind_eq_bind, Option.bind_some, foldlM_step]
    · simp
    · exact fun d hd => by simp [Kind.next?, hfraction d hd]
  · rcases isBreak_cases hc with rfl | rfl | rfl <;> exact ⟨rfl, rfl⟩

end

theorem foldlM_quoted (cs : List Char) (done : List String) (read : List Char) :
    (cs.flatMap fun c => if c = '\'' then ['\'', '\''] else [c]).foldlM step ⟨done, some (.text, read)⟩ =
      some ⟨done, some (.text, (cs.flatMap fun c => if c = '\'' then ['\'', '\''] else [c]).reverse ++ read)⟩ := by
  induction cs generalizing read with
  | nil => rfl
  | cons c cs ih =>
    by_cases hc : c = '\''
    · simp [hc, step, Kind.next?, ih]
    · simp [hc, step, Kind.next?, ih]

theorem splits_quoteText (s : String) : Splits (· != '\'') (quoteText s) [quoteText s] := by
  refine .token (k := .quote) (fun done => ?_) fun c hc => ?_
  · have hstart : step { done } '\'' = some ⟨done, some (.text, ['\''])⟩ := rfl
    have hend (read : List Char) : step ⟨done, some (.text, read)⟩ '\'' = some ⟨done, some (.quote, '\'' :: read)⟩ := rfl
    rw [quoteText, String.toList_ofList, List.cons_append, List.foldlM_cons, hstart, Option.bind_eq_bind, Option.bind_some,
      List.foldlM_append, foldlM_quoted]
    simp [hend]
  · simpa [Kind.next?, Kind.mayEnd] using hc

theorem splits_dot : Splits (fun c => !isSign c && !c.isDigit) "." ["."] := by
  refine .token (k := .sign) (fun _ => rfl) fun c hc => ?_
  have hmay : Kind.mayEnd ".".toList.reverse .sign c = !c.isDigit := rfl
  rw [Bool.and_eq_true, ← hmay] at hc
  exact ⟨by simpa [Kind.next?] using hc.1, hc.2⟩

theorem splits_minus : Splits (fun c => !isSign c) "-" ["-"] := by
  refine .token (k := .sign) (fun _ => rfl) fun c hc => ?_
  exact ⟨by simpa [Kind.next?] using hc, rfl⟩

end Splitting

end ShelfQuery.Sql
