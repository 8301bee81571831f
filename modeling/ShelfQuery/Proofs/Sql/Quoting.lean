import ShelfQuery.Sql.Render

set_option autoImplicit false

namespace ShelfQuery.Sql

open ShelfQuery.Schema

/-- What stands before the closing delimiter, which is at the end; two delimiters stand for one. `pending`
is after a delimiter that closes unless another one follows. -/
def undouble (q : Char) (pending : Bool) : List Char → Option (List Char)
  | [] => if pending then some [] else none
  | c :: rest =>
    if pending then if c = q then (undouble q false rest).map (q :: ·) else none
    else if c = q then undouble q true rest
    else (undouble q false rest).map (c :: ·)

/-- A body with its closing delimiter, each delimiter inside led by `lead`. -/
def delimited (lead q : Char) (cs : List Char) : List Char := Dialect.replaceChar q [lead, q] cs ++ [q]

section

variable {lead q c : Char} {cs : List Char}

theorem delimited_nil : delimited lead q [] = [q] := rfl

theorem delimited_delimiter : delimited lead q (q :: cs) = lead :: q :: delimited lead q cs := by
  simp [delimited, Dialect.replaceChar]

theorem delimited_plain (h : c ≠ q) : delimited lead q (c :: cs) = c :: delimited lead q cs := by
  simp [delimited, Dialect.replaceChar, h]

theorem countP_delimited_le : (delimited lead q cs).countP (· ≠ q) ≤ cs.length := by
  induction cs with
  | nil => simp [delimited_nil]
  | cons c cs ih =>
    by_cases hc : c = q
    · subst hc
      rw [delimited_delimiter, List.countP_cons, List.countP_cons_of_neg (by simp), List.length_cons]
      split <;> omega
    · rw [delimited_plain hc, List.countP_cons, List.length_cons]
      split <;> omega

theorem countP_tail_delimited_le (lead q c : Char) (cs : List Char) :
    (delimited lead q (c :: cs)).tail.countP (· ≠ q) ≤ cs.length := by
  by_cases hc : c = q
  · subst hc
    rw [delimited_delimiter, List.tail_cons, List.countP_cons_of_neg (by simp)]
    exact countP_delimited_le
  · rw [delimited_plain hc, List.tail_cons]
    exact countP_delimited_le

end

theorem undouble_delimited (q : Char) (cs : List Char) : undouble q false (delimited q q cs) = some cs := by
  induction cs with
  | nil => simp [delimited_nil, undouble]
  | cons c cs ih =>
    by_cases hc : c = q
    · subst hc
      simp [delimited_delimiter, undouble, ih]
    · simp [delimited_plain hc, undouble, hc, ih]

theorem delimited_of_undouble {q : Char} {pending : Bool} {cs out : List Char} (h : undouble q pending cs = some out) :
    (if pending then q :: cs else cs) = delimited q q out := by
  induction cs generalizing pending out with
  | nil =>
    cases pending with
    | false => exact nomatch h
    | true =>
      cases h
      rfl
  | cons c rest ih =>
    unfold undouble at h
    cases pending with
    | true =>
      simp only [if_true] at h
      split at h
      · next hc =>
        obtain ⟨out, hout, rfl⟩ := Option.map_eq_some_iff.mp h
        rw [if_pos rfl, delimited_delimiter, hc, ← ih hout]
        rfl
      · exact nomatch h
    | false =>
      simp only [Bool.false_eq_true, if_false] at h ⊢
      split at h
      · next hc =>
        rw [hc, ← ih h]
        rfl
      · next hc =>
        obtain ⟨out, hout, rfl⟩ := Option.map_eq_some_iff.mp h
        rw [delimited_plain hc, ← ih hout]
        rfl

/-- The escapes of a database: the character that is meant after a backslash, and what follows it. An
escape may be of any length. -/
structure Escapes where
  read : List Char → Option (Char × List Char)
  takes : ∀ {cs c rest}, read cs = some (c, rest) → ∃ taken, taken ≠ [] ∧ cs = taken ++ rest
  self : ∀ c ∈ ['\\', '\'', '`'], ∀ rest, read (c :: rest) = some (c, rest)

namespace Escapes

def unescape (e : Escapes) (q : Char) : List Char → Option (List Char)
  | [] => none
  | c :: rest =>
    if c = q then if rest = [] then some [] else none
    else if c = '\\' then
      match _h : e.read rest with
      | none => none
      | some (d, rest) => (unescape e q rest).map (d :: ·)
    else (unescape e q rest).map (c :: ·)
termination_by cs => cs.length
decreasing_by
  · obtain ⟨taken, -, rfl⟩ := e.takes _h
    simp only [List.length_cons, List.length_append]
    omega
  · simp

section

variable (e : Escapes) {q : Char}

theorem unescape_delimiter (rest : List Char) : e.unescape q (q :: rest) = if rest = [] then some [] else none := by
  rw [unescape, if_pos rfl]

theorem unescape_plain {c : Char} (hq : c ≠ q) (hc : c ≠ '\\') (rest : List Char) :
    e.unescape q (c :: rest) = (e.unescape q rest).map (c :: ·) := by
  rw [unescape, if_neg hq, if_neg hc]

theorem unescape_backslash (hq : q ≠ '\\') (cs : List Char) :
    e.unescape q ('\\' :: cs) = (e.read cs).bind fun (c, rest) => (e.unescape q rest).map (c :: ·) := by
  rw [unescape, if_neg (Ne.symm hq), if_pos rfl]
  split <;> simp [*]

theorem length_le_of_unescape (hq : q ≠ '\\') {cs out : List Char} (h : e.unescape q cs = some out) :
    out.length ≤ cs.countP (· ≠ q) := by
  induction hn : cs.length using Nat.strongRecOn generalizing cs out with
  | ind n ih =>
    cases cs with
    | nil => simp [unescape] at h
    | cons c rest =>
      by_cases hc : c = q
      · subst hc
        rw [unescape_delimiter] at h
        split at h
        · simp [← Option.some.inj h]
        · exact nomatch h
      by_cases hb : c = '\\'
      · subst hb
        rw [unescape_backslash e hq] at h
        obtain ⟨⟨d, rest'⟩, hread, hrest⟩ := Option.bind_eq_some_iff.mp h
        obtain ⟨taken, -, rfl⟩ := e.takes hread
        obtain ⟨out, hout, rfl⟩ := Option.map_eq_some_iff.mp hrest
        have hle := ih _ (by simp at hn; omega) hout rfl
        rw [List.countP_cons_of_pos (by simpa using hc), List.countP_append, List.length_cons]
        omega
      · rw [unescape_plain e hc hb] at h
        obtain ⟨out, hout, rfl⟩ := Option.map_eq_some_iff.mp h
        have hle := ih _ (by simp at hn; omega) hout rfl
        rw [List.countP_cons_of_pos (by simpa using hc), List.length_cons]
        omega

/-- A backslash takes what follows it, be it the closing delimiter, and so a character is missing. -/
theorem unescape_backslash_delimited_ne (hq : q ≠ '\\') (lead : Char) (cs : List Char) :
    e.unescape q ('\\' :: delimited lead q cs) ≠ some ('\\' :: cs) := by
  intro h
  rw [unescape_backslash e hq] at h
  obtain ⟨⟨d, rest⟩, hread, hrest⟩ := Option.bind_eq_some_iff.mp h
  obtain ⟨taken, hne, htaken⟩ := e.takes hread
  obtain ⟨x, taken, rfl⟩ := List.exists_cons_of_ne_nil hne
  obtain ⟨out, hout, hcs⟩ := Option.map_eq_some_iff.mp hrest
  obtain ⟨-, rfl⟩ := List.cons.inj hcs
  cases out with
  | nil =>
    obtain ⟨-, hnil⟩ := List.cons.inj htaken
    obtain ⟨-, rfl⟩ := List.append_eq_nil_iff.mp hnil.symm
    simp [unescape] at hout
  | cons c cs =>
    have hle := length_le_of_unescape e hq hout
    have htail := countP_tail_delimited_le lead q c cs
    rw [htaken, List.cons_append, List.tail_cons, List.countP_append] at htail
    rw [List.length_cons] at hle
    omega

theorem unescape_delimited_iff (hq : q ≠ '\\') (hself : ∀ rest, e.read (q :: rest) = some (q, rest)) (cs : List Char) :
    e.unescape q (delimited '\\' q cs) = some cs ↔ '\\' ∉ cs := by
  induction cs with
  | nil => simp [delimited_nil, unescape_delimiter]
  | cons c cs ih =>
    by_cases hc : c = q
    · subst hc
      rw [delimited_delimiter, unescape_backslash e hq, hself]
      simp [ih, Ne.symm hq]
    rw [delimited_plain hc]
    by_cases hb : c = '\\'
    · subst hb
      simp [unescape_backslash_delimited_ne e hq]
    · simp [unescape_plain e hc hb, ih, Ne.symm hb]

theorem unescape_doubled_iff (hq : q ≠ '\\') (cs : List Char) :
    e.unescape q (delimited q q cs) = some cs ↔ '\\' ∉ cs ∧ q ∉ cs := by
  induction cs with
  | nil => simp [delimited_nil, unescape_delimiter]
  | cons c cs ih =>
    by_cases hc : c = q
    · subst hc
      simp [delimited_delimiter, unescape_delimiter]
    rw [delimited_plain hc]
    by_cases hb : c = '\\'
    · subst hb
      simp [unescape_backslash_delimited_ne e hq]
    · simp [unescape_plain e hc hb, ih, Ne.symm hb, Ne.symm hc]

end

end Escapes

def unquote (q : Char) (rule : List Char → Option (List Char)) (text : String) : Option String :=
  match text.toList with
  | [] => none
  | c :: rest => if c = q then (rule rest).map String.ofList else none

theorem unquote_ofList {q : Char} {rule : List Char → Option (List Char)} {cs : List Char} {s : String} :
    unquote q rule (String.ofList (q :: cs)) = some s ↔ rule cs = some s.toList := by
  simp [unquote, ← String.toList_inj]

/-- The name that a database of a dialect reads in quotes. -/
def unquoteName (e : Escapes) : Dialect → String → Option String
  | .bigquery => unquote '`' (e.unescape '`')
  | _ => unquote '"' (undouble '"' false)

/-- The text that a database of a dialect reads in quotes. -/
def unquoteText (e : Escapes) : Dialect → String → Option String
  | .bigquery => unquote '\'' (e.unescape '\'')
  | _ => unquote '\'' (undouble '\'' false)

/-- Names and texts read back from their quotes in SQLite and PostgreSQL. In BigQuery a name reads back
exactly if it holds no backslash, a text exactly if it holds no backslash and no quote. -/
theorem unquote_quote (e : Escapes) (dialect : Dialect) (filters : List String) (s : String) :
    (unquoteName e dialect (dialect.quote s) = some s ↔ (dialect = .bigquery → '\\' ∉ s.toList)) ∧
      (unquoteText e dialect ((Sql.literal (.text s)).render ⟨dialect, filters⟩) = some s ↔
        (dialect = .bigquery → '\\' ∉ s.toList ∧ '\'' ∉ s.toList)) := by
  have hdoubled (q : Char) : unquote q (undouble q false) (String.ofList (q :: delimited q q s.toList)) = some s :=
    unquote_ofList.mpr (undouble_delimited q s.toList)
  cases dialect with
  | bigquery =>
    have hname := e.unescape_delimited_iff (q := '`') (by decide) (e.self _ (by simp)) s.toList
    have htext := e.unescape_doubled_iff (q := '\'') (by decide) s.toList
    exact ⟨unquote_ofList.trans (hname.trans (by simp)), unquote_ofList.trans (htext.trans (by simp))⟩
  | sqlite => exact ⟨iff_of_true (hdoubled '"') nofun, iff_of_true (hdoubled '\'') nofun⟩
  | postgresql => exact ⟨iff_of_true (hdoubled '"') nofun, iff_of_true (hdoubled '\'') nofun⟩

def Escapes.single : Escapes where
  read
    | [] => none
    | c :: rest =>
      ([('a', '\x07'), ('b', '\x08'), ('f', '\x0c'), ('n', '\n'), ('r', '\r'), ('t', '\t'), ('v', '\x0b'), ('?', '?'),
        ('"', '"'), ('\'', '\''), ('`', '`'), ('\\', '\\')].lookup c).map fun d => (d, rest)
  takes {cs} _ _ h := by
    cases cs with
    | nil => exact nomatch h
    | cons c cs =>
      obtain ⟨d, -, hd⟩ := Option.map_eq_some_iff.mp h
      obtain ⟨-, rfl⟩ := Prod.mk.inj hd
      exact ⟨[c], by simp, rfl⟩
  self c hc rest := by
    simp only [List.mem_cons, List.not_mem_nil, or_false] at hc
    rcases hc with rfl | rfl | rfl <;> rfl

/-- A backslash at the end of a name and a quote in a text are lost in BigQuery only. -/
theorem unquote_quote_lost :
    let lost := fun dialect => unquoteName .single dialect (dialect.quote "a\\") ≠ some "a\\" ∧
      unquoteText .single dialect ((Sql.literal (.text "it's")).render ⟨dialect, []⟩) ≠ some "it's"
    lost .bigquery ∧ ¬ lost .sqlite ∧ ¬ lost .postgresql := by
  intro lost
  have hname (dialect : Dialect) := (unquote_quote .single dialect [] "a\\").1
  have htext := (unquote_quote .single .bigquery [] "it's").2
  refine ⟨⟨fun h => (hname .bigquery).mp h rfl (by simp), fun h => (htext.mp h rfl).2 (by simp)⟩, ?_, ?_⟩
  · exact fun h => h.1 ((hname .sqlite).mpr nofun)
  · exact fun h => h.1 ((hname .postgresql).mpr nofun)

end ShelfQuery.Sql
