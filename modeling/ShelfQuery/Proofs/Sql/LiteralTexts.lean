import ShelfQuery.Proofs.Sql.Reader.Numbers

set_option autoImplicit false

namespace ShelfQuery.Sql

open ShelfQuery.Number

/-- The characters of the literals that stand without quotes: numbers, and the words for null, the truth values
and doubles that are not finite. -/
def isPlainChar (c : Char) : Bool := c.isDigit || ".-NULLtruefalseinfNaN".toList.contains c

theorem ne_of_isPlainChar {c d : Char} (hc : isPlainChar c = true) (hd : isPlainChar d = false) : c ≠ d := by
  rintro rfl
  rw [hc] at hd
  cases hd

def IsPlain (text : String) : Prop := ∀ c ∈ text.toList, isPlainChar c = true

theorem IsPlain.append {a b : String} (ha : IsPlain a) (hb : IsPlain b) : IsPlain (a ++ b) := by
  intro c hc
  rw [String.toList_append, List.mem_append] at hc
  exact hc.elim (ha c) (hb c)

theorem isPlain_of_all {text : String} (h : text.toList.all isPlainChar = true) : IsPlain text :=
  List.all_eq_true.mp h

theorem isPlainChar_of_isDigit {c : Char} (h : c.isDigit = true) : isPlainChar c = true := by
  rw [isPlainChar, h, Bool.true_or]

theorem isPlain_of_isDigits {cs : List Char} (h : IsDigits cs) : IsPlain (String.ofList cs) := by
  intro c hc
  rw [String.toList_ofList] at hc
  exact isPlainChar_of_isDigit (h c hc)

theorem isPlain_signText (negative : Bool) : IsPlain (signText negative) := by
  cases negative <;> exact isPlain_of_all rfl

theorem isPlain_positional (d : Decimal) : IsPlain (positional d) := by
  rcases Int.lt_or_le d.exponent 0 with hneg | hpos
  · obtain ⟨whole, fraction, htext, -, hwhole, hfraction, -⟩ := positional_fraction hneg
    have hpoint : String.ofList (whole ++ '.' :: fraction) = String.ofList whole ++ "." ++ String.ofList fraction :=
      String.toList_inj.mp (by simp)
    rw [htext, hpoint]
    exact ((isPlain_of_isDigits hwhole).append (isPlain_of_all rfl)).append (isPlain_of_isDigits hfraction)
  · obtain ⟨cs, htext, -, hcs, -⟩ := positional_whole hpos
    rw [htext]
    exact isPlain_of_isDigits hcs

theorem isPlain_plain (x : Float) : IsPlain (plain x) := by
  unfold plain
  split
  · exact (isPlain_signText _).append (isPlain_positional _)
  · exact (isPlain_signText _).append (isPlain_of_all rfl)
  · exact isPlain_of_all rfl

theorem isPlain_float (x : Float) : IsPlain (Number.literal x) := by
  unfold Number.literal
  split
  · split
    · exact (isPlain_plain x).append (isPlain_of_all rfl)
    · exact isPlain_plain x
  · exact isPlain_plain x

theorem isPlain_int (n : Int) : IsPlain (toString n) := by
  have hnat (n : Nat) : IsPlain n.repr := isPlain_of_isDigits (isDigits_toDigits n)
  rw [Int.toString_eq_repr, Int.repr_eq_if]
  split
  · exact hnat _
  · exact (isPlain_of_all rfl).append (hnat _)

theorem Literal.render_cases (l : Literal) : IsPlain l.render ∨ ∃ s, l.render = quoteText s := by
  cases l with
  | null => exact .inl (isPlain_of_all rfl)
  | bool b => cases b <;> exact .inl (isPlain_of_all rfl)
  | int n => exact .inl (isPlain_int n)
  | float x => exact .inl (isPlain_float x)
  | text s => exact .inr ⟨s, rfl⟩
  | date d => exact .inr ⟨d.text, rfl⟩
  | datetime m => exact .inr ⟨m.text, rfl⟩

def doubled (cs : List Char) : List Char := cs.flatMap fun c => if c = '\'' then ['\'', '\''] else [c]

theorem quoteText_toList (s : String) : (quoteText s).toList = '\'' :: (doubled s.toList ++ ['\'']) := by
  rw [quoteText, String.toList_ofList, List.cons_append, doubled]

/-- The part of a text before the first comma that stands outside of quotes, and the rest; `inside` tells
whether the text begins inside of them. -/
def cutComma : (inside : Bool) → List Char → List Char × List Char
  | _, [] => ([], [])
  | true, c :: rest => ((cutComma (c != '\'') rest).map (c :: ·) id)
  | false, c :: rest => if c = ',' then ([], c :: rest) else (cutComma (c == '\'') rest).map (c :: ·) id

def Uncut (cs : List Char) : Prop := ∀ rest, cutComma false (cs ++ rest) = (cutComma false rest).map (cs ++ ·) id

theorem uncut_of_plain {cs : List Char} (h : ∀ c ∈ cs, isPlainChar c = true) : Uncut cs := by
  intro rest
  induction cs with
  | nil => rfl
  | cons c cs ih =>
    have hcomma : c ≠ ',' := ne_of_isPlainChar (h c (.head _)) rfl
    have hquote : c ≠ '\'' := ne_of_isPlainChar (h c (.head _)) rfl
    rw [List.cons_append, cutComma, if_neg hcomma, beq_false_of_ne hquote, ih fun d hd => h d (.tail _ hd)]
    rfl

/-- Two quotes inside of a text lead out of it and back. -/
theorem cutComma_doubled (cs rest : List Char) :
    cutComma true (doubled cs ++ rest) = (cutComma true rest).map (doubled cs ++ ·) id := by
  induction cs with
  | nil => rfl
  | cons c cs ih =>
    by_cases hc : c = '\''
    · have hcons : doubled (c :: cs) = '\'' :: '\'' :: doubled cs := by simp [doubled, hc]
      rw [hcons, List.cons_append, List.cons_append, cutComma, show ('\'' != '\'') = false from rfl, cutComma,
        if_neg (by decide), show ('\'' == '\'') = true from rfl, ih]
      rfl
    · have hcons : doubled (c :: cs) = c :: doubled cs := by simp [doubled, hc]
      rw [hcons, List.cons_append, cutComma, bne_iff_ne.mpr hc, ih]
      rfl

theorem uncut_quoteText (s : String) : Uncut (quoteText s).toList := by
  intro rest
  have htext : (quoteText s).toList ++ rest = '\'' :: (doubled s.toList ++ ('\'' :: rest)) := by simp [quoteText_toList]
  rw [htext, quoteText_toList, cutComma, if_neg (by decide), show ('\'' == '\'') = true from rfl, cutComma_doubled,
    cutComma, show ('\'' != '\'') = false from rfl]
  simp only [Prod.map_map, Function.comp_def, List.cons_append, List.append_assoc, List.nil_append]
  rfl

theorem uncut_literal (l : Literal) : Uncut l.render.toList := by
  rcases l.render_cases with hplain | ⟨s, hs⟩
  · exact uncut_of_plain hplain
  · rw [hs]
    exact uncut_quoteText s

/-- Equally many texts with commas between them can be told apart. -/
theorem join_comma_inj {ts us : List String} (hts : ∀ t ∈ ts, Uncut t.toList) (hus : ∀ u ∈ us, Uncut u.toList)
    (hlength : ts.length = us.length) (h : Text.join ", " ts = Text.join ", " us) : ts = us := by
  have hlast {t : String} (ht : Uncut t.toList) : cutComma false t.toList = (t.toList, []) := by
    have hcut := ht []
    rw [List.append_nil] at hcut
    simpa [cutComma] using hcut
  have hmore {t : String} (ht : Uncut t.toList) (rest : String) :
      cutComma false (t ++ ", " ++ rest).toList = (t.toList, ',' :: ' ' :: rest.toList) := by
    have hcut := ht (',' :: ' ' :: rest.toList)
    simpa [cutComma] using hcut
  induction ts generalizing us with
  | nil =>
    cases us with
    | nil => rfl
    | cons => cases hlength
  | cons t ts ih =>
    cases us with
    | nil => cases hlength
    | cons u us =>
      have ht := hts t (.head _)
      have hu := hus u (.head _)
      have hlength : ts.length = us.length := Nat.succ.inj hlength
      cases ts with
      | nil =>
        cases us with
        | nil => rw [show t = u from h]
        | cons => cases hlength
      | cons t' ts =>
        cases us with
        | nil => cases hlength
        | cons u' us =>
          have hcut := congrArg (fun text : String => cutComma false text.toList) h
          simp only [Text.join, hmore ht, hmore hu, Prod.mk.injEq, List.cons.injEq, true_and] at hcut
          obtain ⟨hfirst, hrest⟩ := hcut
          rw [String.toList_inj.mp hfirst]
          refine congrArg _ (ih (fun t ht => hts t (.tail _ ht)) (fun u hu => hus u (.tail _ hu)) hlength ?_)
          exact String.toList_inj.mp hrest

end ShelfQuery.Sql
