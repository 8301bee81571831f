import Mathlib.Data.Finset.Card
import ShelfQuery.Proofs.Parser.Term
import ShelfQuery.Proofs.Schema.Names
import ShelfQuery.Shelf.Reference

set_option autoImplicit false

namespace ShelfQuery.Shelf

open ShelfQuery.Expression ShelfQuery.Text ShelfQuery.Schema

/-- The text is read as the term by the grammar with references. -/
def Spells (text : String) (x : Term) : Prop :=
  ∃ ts p, scan text = .ok (ts ++ [⟨.eof, p⟩]) ∧ Forms .or (ts.map Token.kind) [x]

/-- Columns have neither quotes nor an `@` in their names, and names of references are ASCII. -/
def isPlainKind : TokenKind → Bool
  | .column name => name.toList.all fun c => c != '"' && c != '\'' && c != '@'
  | .reference name => name.toList.all fun c => c.toNat < 128
  | _ => true

def Readable (text : String) : Prop :=
  (∃ x, Spells text x) ∧ ∀ ts, scan text = .ok ts → ∀ t ∈ ts, isPlainKind t.kind = true

def Refers (text name : String) : Prop := ∃ ts, scan text = .ok ts ∧ .reference name ∈ ts.map Token.kind

/-- The text refers to the name, by itself or through the fields that it refers to. -/
inductive Reaches (d : Definition) : String → String → Prop where
  | here {text name} : Refers text name → Reaches d text name
  | through {text name entry other} : Refers text name → d.find? name = some entry → Reaches d entry.text other →
      Reaches d text other

/-- Whatever a readable text reaches is defined and readable, and does not reach itself. -/
structure Closed (d : Definition) (text : String) : Prop where
  readable : Readable text
  defined : ∀ name, Reaches d text name → ∃ entry, d.find? name = some entry ∧ Readable entry.text
  acyclic : ∀ name entry, Reaches d text name → d.find? name = some entry → ¬ Reaches d entry.text name

/-- Expanding the text of the entry `id` succeeds, and the result is read as the term. -/
def ExpandsTo (d : Definition) (id text : String) (x : Term) : Prop :=
  ∃ expanded tree, expandReferences id text d = .ok expanded ∧ Tree.parse expanded = .ok tree ∧ tree.term = x

def cuts : List Char := ['"', '\'', '@']

theorem segmentsFrom_skip (q : Quoting) (name rest : List Char) :
    segmentsFrom name.length q (name ++ rest) = segmentsFrom 0 q rest := by
  induction name with
  | nil => rfl
  | cons c name ih => exact ih

variable {cs out : List Char} {c : Char} {name : String} {ks : List TokenKind} {x : Term}

theorem segmentsFrom_plain (h : ∀ c ∈ cs, c ∉ cuts) (rest : List Char) :
    segmentsFrom 0 .outside (cs ++ rest) = cs.map .char ++ segmentsFrom 0 .outside rest := by
  induction cs with
  | nil => rfl
  | cons c cs ih =>
    have hc := h c (List.mem_cons_self ..)
    simp only [cuts, List.mem_cons, List.not_mem_nil, or_false, not_or] at hc
    simp [segmentsFrom, Quoting.after, hc, ih fun c hc => h c (List.mem_cons_of_mem _ hc)]

theorem segmentsFrom_quoted {quote : Char} (hquote : quote ∈ quoteMarks) {body value : List Char}
    (h : Quoted quote body value) (rest : List Char) :
    segmentsFrom 0 (.inside quote) (body ++ rest) = body.map .char ++ segmentsFrom 0 .outside rest := by
  have hslash : quote ≠ '\\' := by
    rintro rfl
    exact absurd hquote (by decide)
  induction h with
  | close => simp [segmentsFrom, Quoting.after, hslash]
  | escape c _ ih => simp [segmentsFrom, Quoting.after, ih]
  | plain hne hne' _ ih => simp [segmentsFrom, Quoting.after, hne, hne', ih]

theorem segmentsFrom_lexeme {used : List Char} {kind : TokenKind} {next : Option Char}
    (h : Lexeme c used kind next) (hplain : isPlainKind kind = true) (hkind : ∀ name, kind ≠ .reference name)
    (rest : List Char) :
    segmentsFrom 0 .outside (c :: (used ++ rest)) = (c :: used).map .char ++ segmentsFrom 0 .outside rest := by
  have hclear (h : ∀ d ∈ c :: used, d ∉ cuts) :
      segmentsFrom 0 .outside (c :: (used ++ rest)) = (c :: used).map .char ++ segmentsFrom 0 .outside rest :=
    segmentsFrom_plain h rest
  have hdigit {d : Char} (hd : d.isDigit = true) : d ∉ cuts := not_mem_of_class Char.isDigit rfl hd
  have hword {d : Char} (hd : isWordChar d = true) : d ∉ cuts := not_mem_of_class isWordChar rfl hd
  cases h with
  | single hm =>
    refine hclear ?_
    simp only [singleMarks, List.mem_cons, List.not_mem_nil, or_false, Prod.mk.injEq] at hm
    rcases hm with ⟨rfl, rfl⟩ | ⟨rfl, rfl⟩ | ⟨rfl, rfl⟩ | ⟨rfl, rfl⟩ | ⟨rfl, rfl⟩ | ⟨rfl, rfl⟩ | ⟨rfl, rfl⟩ <;> simp [cuts]
  | double hm =>
    refine hclear ?_
    simp only [doubleMarks, List.mem_cons, List.not_mem_nil, or_false, Prod.mk.injEq] at hm
    rcases hm with ⟨rfl, rfl, rfl⟩ | ⟨rfl, rfl, rfl⟩ | ⟨rfl, rfl, rfl⟩ | ⟨rfl, rfl, rfl⟩ | ⟨rfl, rfl, rfl⟩ |
      ⟨rfl, rfl, rfl⟩ | ⟨rfl, rfl, rfl⟩ <;> simp [cuts]
  | opening hm =>
    refine hclear ?_
    simp only [openMarks, List.mem_cons, List.not_mem_nil, or_false, Prod.mk.injEq] at hm
    rcases hm with ⟨rfl, rfl, rfl⟩ | ⟨rfl, rfl, rfl⟩ | ⟨rfl, rfl, rfl⟩ <;> simp [cuts]
  | @column raw =>
    have hraw : ∀ d ∈ raw, d ∉ cuts := by
      intro d hd hcut
      have hblank : isBlank d = false := by
        simp only [cuts, List.mem_cons, List.not_mem_nil, or_false] at hcut
        rcases hcut with rfl | rfl | rfl <;> rfl
      have hname := mem_trim_of_not_isBlank hd hblank
      simp only [isPlainKind, String.toList_ofList, List.all_eq_true] at hplain
      have hnot := hplain d hname
      simp only [cuts, List.mem_cons, List.not_mem_nil, or_false] at hcut
      simp_all
    refine hclear (List.forall_mem_cons.mpr ⟨by decide, List.forall_mem_append.mpr ⟨hraw, ?_⟩⟩)
    exact List.forall_mem_singleton.mpr (by decide)
  | reference => exact absurd rfl (hkind _)
  | quoted hquote hbody =>
    have hopen : segmentsFrom 0 .outside (c :: (used ++ rest)) =
        .char c :: segmentsFrom 0 (.inside c) (used ++ rest) := by
      simp only [quoteMarks, List.mem_cons, List.not_mem_nil, or_false] at hquote
      rcases hquote with rfl | rfl <;> rfl
    rw [hopen, segmentsFrom_quoted hquote hbody]
    rfl
  | int hdigits => exact hclear fun d hd => hdigit (hdigits d hd)
  | decimal hsplit hwhole hfraction =>
    refine hclear ?_
    rw [hsplit]
    refine List.forall_mem_append.mpr ⟨fun d hd => hdigit (hwhole d hd), List.forall_mem_cons.mpr ⟨by decide, ?_⟩⟩
    exact fun d hd => hdigit (hfraction d hd)
  | word hstart hall =>
    exact hclear (List.forall_mem_cons.mpr ⟨hword (isWordChar_of_start hstart), fun d hd => hword (hall d hd)⟩)

theorem isNameChar_eq_isWordChar (h : c.toNat < 128) : isNameChar c = isWordChar c := by
  rw [isNameChar, isWordChar, isAlphanumeric, isAlphabetic, isNumeric, if_pos h, if_pos h, Char.isAlphanum]

theorem isWordChar_of_isNameChar (h : isNameChar c = true) : isWordChar c = true := by
  rw [← isNameChar_eq_isWordChar (toNat_lt_of_isNameChar h)]
  exact h

theorem segmentsFrom_reference {name rest : List Char} (hname : name ≠ []) (hall : ∀ c ∈ name, isWordChar c = true)
    (hascii : ∀ c ∈ name, c.toNat < 128) (hnext : Stops isWordChar rest.head?) :
    segmentsFrom 0 .outside ('@' :: (name ++ rest)) =
      .reference (String.ofList name) :: segmentsFrom 0 .outside rest := by
  have hchars : ∀ c ∈ name, isNameChar c = true :=
    fun c hc => (isNameChar_eq_isWordChar (hascii c hc)).trans (hall c hc)
  have hstops : Stops isNameChar rest.head? := by
    cases rest with
    | nil => rfl
    | cons c rest =>
      have hc : isWordChar c = false := by simpa [Stops] using hnext
      have hc' : isNameChar c = false := by
        rw [Bool.eq_false_iff]
        intro h
        cases hc.symm.trans (isWordChar_of_isNameChar h)
      simpa [Stops] using hc'
  obtain ⟨htake, -⟩ := span_eq hchars hstops
  simp only [segmentsFrom, htake]
  rw [if_pos (by simpa using hname), segmentsFrom_skip]

theorem expandSegments_chars {expand : String → Except ReferenceError (List Char)} {segs : List Segment}
    (h : expandSegments expand segs = .ok out) (cs : List Char) :
    expandSegments expand (cs.map .char ++ segs) = .ok (cs ++ out) := by
  induction cs with
  | nil => exact h
  | cons c cs ih =>
    rw [List.map_cons, List.cons_append, expandSegments, ih]
    rfl

theorem not_mem_cuts_of_isBlank {gap : List Char} (hgap : ∀ c ∈ gap, isBlank c = true) : ∀ c ∈ gap, c ∉ cuts :=
  fun c hc => not_mem_of_class isBlank rfl (hgap c hc)

theorem segmentsFrom_of_reference {used rest : List Char}
    (h : Lexeme c used (.reference name) rest.head?) (hplain : isPlainKind (.reference name) = true) :
    segmentsFrom 0 .outside (c :: (used ++ rest)) = .reference name :: segmentsFrom 0 .outside rest := by
  generalize hkind : TokenKind.reference name = kind at h
  cases h with
  | reference hname hall hnext =>
    cases hkind
    refine segmentsFrom_reference hname hall ?_ hnext
    simpa [isPlainKind] using hplain
  | int =>
    unfold intToken at hkind
    dsimp only at hkind
    split at hkind <;> exact nomatch hkind
  | word =>
    unfold wordKind at hkind
    split at hkind <;> exact nomatch hkind
  | _ => exact nomatch hkind

/-- If each reference is expanded to a text that is cut into tokens, so is the whole. The parentheses
keep the tokens apart. -/
theorem expandSegments_lexes {χ : String → List Char} {κ : String → List TokenKind}
    (h : Lexes cs ks) (hplain : ∀ k ∈ ks, isPlainKind k = true)
    (hχ : ∀ name, .reference name ∈ ks → Lexes (χ name) (κ name)) :
    ∃ out, (∀ expand : String → Except ReferenceError (List Char),
        (∀ name, .reference name ∈ ks → expand name = .ok (χ name)) →
          expandSegments expand (segmentsFrom 0 .outside cs) = .ok out) ∧
      Lexes out (ks.flatMap (pasted κ)) ∧ (out.head? = cs.head? ∨ out.head? = some '(') := by
  induction h with
  | @done gap hgap =>
    refine ⟨gap, fun expand _ => ?_, .done hgap, .inl rfl⟩
    have hsegs := segmentsFrom_plain (not_mem_cuts_of_isBlank hgap) []
    have hnil : expandSegments expand (segmentsFrom 0 .outside []) = .ok [] := rfl
    rw [List.append_nil] at hsegs
    rw [hsegs, expandSegments_chars hnil, List.append_nil]
  | @token gap c used rest kind kinds hgap hc hlexeme hlexes ih =>
    obtain ⟨out, hout, hlex, hhead⟩ := ih (fun k hk => hplain k (List.mem_cons_of_mem _ hk))
      fun name hname => hχ name (List.mem_cons_of_mem _ hname)
    have hkind := hplain kind (List.mem_cons_self ..)
    have hgapped (tail : List Char) := segmentsFrom_plain (not_mem_cuts_of_isBlank hgap) tail
    by_cases href : ∃ name, kind = .reference name
    · obtain ⟨name, rfl⟩ := href
      refine ⟨gap ++ '(' :: (χ name ++ ')' :: out), fun expand hexpand => ?_, ?_, ?_⟩
      · rw [hgapped, segmentsFrom_of_reference hlexeme hkind]
        refine expandSegments_chars ?_ gap
        rw [expandSegments, hexpand name (List.mem_cons_self ..),
          hout expand fun name hname => hexpand name (List.mem_cons_of_mem _ hname)]
        simp [bind, Except.bind, pure, Except.pure]
      · have hno : ∀ c ∈ ([] : List Char), isBlank c = true := nofun
        have hparen : Lexeme ')' [] (.mark .closeParen) out.head? := .single (by decide)
        have hclose : Lexes (')' :: out) (.mark .closeParen :: kinds.flatMap (pasted κ)) := .token hno rfl hparen hlex
        have hinner := (hχ name (List.mem_cons_self ..)).append (by decide) hclose
        have hopen : Lexeme '(' [] (.mark .openParen) (χ name ++ ')' :: out).head? := .single (by decide)
        simpa [pasted] using Lexes.token hgap rfl hopen hinner
      · cases gap with
        | nil => exact .inr rfl
        | cons d gap => exact .inl rfl
    · have hsegs := segmentsFrom_lexeme hlexeme hkind (fun name hname => href ⟨name, hname⟩) rest
      refine ⟨gap ++ c :: (used ++ out), fun expand hexpand => ?_, ?_, ?_⟩
      · rw [hgapped, hsegs]
        refine expandSegments_chars (expandSegments_chars ?_ (c :: used)) gap
        exact hout expand fun name hname => hexpand name (List.mem_cons_of_mem _ hname)
      · rw [List.flatMap_cons, pasted_of_not_reference fun name hname => href ⟨name, hname⟩]
        refine .token hgap hc ?_ hlex
        rcases hhead with hhead | hhead
        · exact hhead ▸ hlexeme
        · exact hhead ▸ hlexeme.follow (by decide)
      · cases gap <;> exact .inl rfl

section

variable {d : Definition} {text : String}

open Classical in
noncomputable def reached (d : Definition) (text : String) : Finset String :=
  (d.map Prod.fst).toFinset.filter (Reaches d text)

theorem reached_card_le (d : Definition) (text : String) : (reached d text).card ≤ d.length := by
  classical
  calc (reached d text).card ≤ (d.map Prod.fst).toFinset.card := Finset.card_filter_le _ _
    _ ≤ (d.map Prod.fst).length := List.toFinset_card_le _
    _ = d.length := List.length_map ..

theorem mem_keys_of_find? {entry : Entry} (h : d.find? name = some entry) : name ∈ d.map Prod.fst := by
  obtain ⟨found, hfound, rfl⟩ := Option.map_eq_some_iff.mp h
  have hname := List.find?_some hfound
  exact List.mem_map.mpr ⟨found, List.mem_of_find?_eq_some hfound, by simpa using hname⟩

theorem Closed.entry (h : Closed d text) {entry : Entry} (hname : Refers text name)
    (hentry : d.find? name = some entry) : Closed d entry.text := by
  obtain ⟨entry', hentry', hreadable⟩ := h.defined name (.here hname)
  obtain rfl : entry = entry' := Option.some.inj (hentry.symm.trans hentry')
  exact ⟨hreadable, fun other hother => h.defined other (.through hname hentry hother),
    fun other entry' hother => h.acyclic other entry' (.through hname hentry hother)⟩

/-- A referenced field reaches fewer names, since it does not reach itself. -/
theorem Closed.reached_card_lt (h : Closed d text) {entry : Entry} (hname : Refers text name)
    (hentry : d.find? name = some entry) : (reached d entry.text).card < (reached d text).card := by
  refine Finset.card_lt_card ((Finset.ssubset_iff_of_subset ?_).mpr ⟨name, ?_, ?_⟩)
  · intro other hother
    simp only [reached, Finset.mem_filter] at hother ⊢
    exact ⟨hother.1, .through hname hentry hother.2⟩
  · simpa [reached] using ⟨by simpa using mem_keys_of_find? hentry, Reaches.here hname⟩
  · simpa [reached] using fun _ _ => h.acyclic name entry (.here hname) hentry

/-- Whatever the path, as long as it holds no name that is reached, the text expands to `out`, which
is cut into the tokens `ks` of the term `x`. -/
structure Expansion (d : Definition) (text : String) (out : List Char) (ks : List TokenKind) (x : Term) : Prop where
  expands : ∀ fuel path, (reached d text).card < fuel → (∀ name ∈ path, ¬ Reaches d text name) →
    expandWith d fuel path text = .ok out
  lexes : Lexes out ks
  realizes : Realizes .or ks [x]

theorem Expansion.expandsTo (h : Expansion d text out ks x)
    {id : String} (hid : ¬ Reaches d text id) : ExpandsTo d id text x := by
  have hfuel : (reached d text).card < d.length + 2 := by
    have hcard := reached_card_le d text
    omega
  obtain ⟨tree, hparse, hterm⟩ := parse_of_realizes h.lexes h.realizes
  refine ⟨String.ofList out, tree, ?_, hparse, hterm⟩
  rw [expandReferences, h.expands _ [id] hfuel (by simpa using hid)]
  rfl

/-- One step: a text is expanded if the fields that it refers to are. -/
theorem Closed.expansion_of_entries (h : Closed d text) (hx : Spells text x)
    (hentries : ∀ name entry, Refers text name → d.find? name = some entry →
      ∃ out ks y, Expansion d entry.text out ks y) :
    ∃ σ out ks, (∀ name entry, Refers text name → d.find? name = some entry →
        ∃ out ks, Expansion d entry.text out ks (σ name)) ∧ Expansion d text out ks (x.subst σ) := by
  have hchoice : ∀ name, ∃ out ks y, Realizes .or ks [y] ∧ ∀ entry, Refers text name → d.find? name = some entry →
      Expansion d entry.text out ks y := by
    intro name
    by_cases hname : Refers text name
    · obtain ⟨entry, hentry, -⟩ := h.defined name (.here hname)
      obtain ⟨out, ks, y, hexpansion⟩ := hentries name entry hname hentry
      refine ⟨out, ks, y, hexpansion.realizes, fun entry' _ hentry' => ?_⟩
      obtain rfl : entry = entry' := Option.some.inj (hentry.symm.trans hentry')
      exact hexpansion
    · exact ⟨[], [.mark .star], .star, realizes_star, fun entry hrefers => absurd hrefers hname⟩
  choose χ κ σ hrealizes hexpansion using hchoice
  obtain ⟨ts, p, hscan, hforms⟩ := hx
  have hrefers {name : String} (hname : .reference name ∈ ts.map Token.kind) : Refers text name :=
    ⟨_, hscan, by simp [List.mem_map.mp hname]⟩
  obtain ⟨us, q, hus, hlexes⟩ := lexes_of_scan hscan
  obtain ⟨rfl, -⟩ := List.append_inj' hus rfl
  have hplain : ∀ k ∈ ts.map Token.kind, isPlainKind k = true := by
    intro k hk
    obtain ⟨t, ht, rfl⟩ := List.mem_map.mp hk
    exact h.readable.2 _ hscan t (List.mem_append_left _ ht)
  have hχ : ∀ name, .reference name ∈ ts.map Token.kind → Lexes (χ name) (κ name) := by
    intro name hname
    obtain ⟨entry, hentry, -⟩ := h.defined name (.here (hrefers hname))
    exact (hexpansion name entry (hrefers hname) hentry).lexes
  obtain ⟨out, hout, hlex, -⟩ := expandSegments_lexes hlexes hplain hχ
  refine ⟨σ, out, _, fun name entry hname hentry => ⟨_, _, hexpansion name entry hname hentry⟩, ?_, hlex,
    hforms.realizes hrealizes⟩
  intro fuel path hfuel hpath
  cases fuel with
  | zero => exact nomatch hfuel
  | succ fuel =>
    rw [expandWith]
    refine hout _ fun name hname => ?_
    obtain ⟨entry, hentry, -⟩ := h.defined name (.here (hrefers hname))
    have hnew : path.contains name = false := by
      simpa using fun hmem => hpath name hmem (.here (hrefers hname))
    have hcard := h.reached_card_lt (hrefers hname) hentry
    simp only [hnew, hentry]
    refine (hexpansion name entry (hrefers hname) hentry).expands fuel _ (by omega) fun other hother => ?_
    rcases List.mem_append.mp hother with hother | hother
    · exact fun hreaches => hpath other hother (.through (hrefers hname) hentry hreaches)
    · obtain rfl := List.mem_singleton.mp hother
      exact h.acyclic other entry (.here (hrefers hname)) hentry

/-- By induction on how many names are reached. -/
theorem Closed.expansion (h : Closed d text) : ∃ out ks y, Expansion d text out ks y := by
  generalize hn : (reached d text).card = n
  induction n using Nat.strong_induction_on generalizing text with
  | _ n ih =>
    obtain ⟨⟨x, hx⟩, -⟩ := h.readable
    obtain ⟨σ, out, ks, -, hexpansion⟩ := h.expansion_of_entries hx fun name entry hname hentry =>
      ih _ (hn ▸ h.reached_card_lt hname hentry) (h.entry hname hentry) rfl
    exact ⟨out, ks, _, hexpansion⟩

end

/-- Expanding the references of a text that reaches only readable fields, none of them itself and not
the entry it belongs to, succeeds; and the result is read as the tree of the text with the tree
of each referenced field, expanded, in the place of the reference. -/
theorem expandReferences_eq_subst (d : Definition) (id text : String) (x : Term) (hx : Spells text x)
    (hclosed : Closed d text) (hid : ¬ Reaches d text id) :
    ∃ σ, (∀ name entry, Refers text name → d.find? name = some entry → ExpandsTo d name entry.text (σ name)) ∧
      ExpandsTo d id text (x.subst σ) := by
  obtain ⟨σ, out, ks, hentries, hexpansion⟩ := hclosed.expansion_of_entries hx
    fun name entry hname hentry => (hclosed.entry hname hentry).expansion
  refine ⟨σ, fun name entry hname hentry => ?_, hexpansion.expandsTo hid⟩
  obtain ⟨out', ks', hentry'⟩ := hentries name entry hname hentry
  exact hentry'.expandsTo (hclosed.acyclic name entry (.here hname) hentry)

theorem refers_iff {text : String} {ts : List Token} (hscan : scan text = .ok ts) (name : String) :
    Refers text name ↔ .reference name ∈ ts.map Token.kind := by
  constructor
  · rintro ⟨ts', hscan', hname⟩
    obtain rfl : ts = ts' := Except.ok.inj (hscan.symm.trans hscan')
    exact hname
  · exact fun hname => ⟨ts, hscan, hname⟩

theorem spells_of_parse {text : String} {tree : Tree} (h : Tree.parse text = .ok tree) : Spells text tree.term := by
  obtain ⟨ts, p, hscan, hderives⟩ := derives_of_parse h
  exact ⟨ts, p, hscan, hderives.forms⟩

/-- A reference to a field that has a reference itself, under a product. -/
theorem expandReferences_nested :
    let d : Definition := [("base", .field "[test] - 1"), ("rate", .field "[score] + @base")]
    let x : Term := .arith .mul (.reference "rate") (.constant (.int 2))
    Spells "@rate * 2" x ∧ Closed d "@rate * 2" ∧ ¬ Reaches d "@rate * 2" "double" ∧
      ∃ σ, (∀ name entry, Refers "@rate * 2" name → d.find? name = some entry →
          ExpandsTo d name entry.text (σ name)) ∧ ExpandsTo d "double" "@rate * 2" (x.subst σ) := by
  intro d x
  have hbase : scan "[test] - 1" = .ok [⟨.column "test", 1⟩, ⟨.mark .minus, 7⟩, ⟨.int 1, 9⟩, ⟨.eof, 10⟩] := rfl
  have hrate : scan "[score] + @base" =
      .ok [⟨.column "score", 1⟩, ⟨.mark .plus, 8⟩, ⟨.reference "base", 10⟩, ⟨.eof, 15⟩] := rfl
  have htop : scan "@rate * 2" = .ok [⟨.reference "rate", 0⟩, ⟨.mark .star, 6⟩, ⟨.int 2, 8⟩, ⟨.eof, 9⟩] := rfl
  have hfromBase (name : String) : ¬ Reaches d "[test] - 1" name := by
    intro h
    cases h with
    | here h => simp [refers_iff hbase] at h
    | through h => simp [refers_iff hbase] at h
  have hfromRate {name : String} (h : Reaches d "[score] + @base" name) : name = "base" := by
    cases h with
    | here h => simpa [refers_iff hrate] using h
    | through h hentry hrest =>
      obtain rfl : _ = "base" := by simpa [refers_iff hrate] using h
      cases hentry
      exact absurd hrest (hfromBase name)
  have hfromTop {name : String} (h : Reaches d "@rate * 2" name) : name = "rate" ∨ name = "base" := by
    cases h with
    | here h => exact .inl (by simpa [refers_iff htop] using h)
    | through h hentry hrest =>
      obtain rfl : _ = "rate" := by simpa [refers_iff htop] using h
      cases hentry
      exact .inr (hfromRate hrest)
  have hx : Spells "@rate * 2" x :=
    ⟨[⟨.reference "rate", 0⟩, ⟨.mark .star, 6⟩, ⟨.int 2, 8⟩], 9, htop,
      .orOne (.andOne (.predicateOne (.sumOne (.productMore (.inl rfl) (.productOne (.unaryOne (.reference _)))
        (.unaryOne (.constant (.int 2)))))))⟩
  have hplain {text : String} {ts : List Token} (hscan : scan text = .ok ts)
      (h : ts.all (fun t => isPlainKind t.kind) = true) :
      ∀ ts, scan text = .ok ts → ∀ t ∈ ts, isPlainKind t.kind = true := by
    intro ts' hscan'
    obtain rfl : ts = ts' := Except.ok.inj (hscan.symm.trans hscan')
    exact List.all_eq_true.mp h
  have hparse : Tree.parse "[test] - 1" = .ok (.arith 1 .sub (.column 1 "test") (.constant 9 (.int 1))) := by
    rw [Tree.parse, hbase]
    rfl
  have hreadableBase : Readable "[test] - 1" := ⟨⟨_, spells_of_parse hparse⟩, hplain hbase rfl⟩
  have hreadableRate : Readable "[score] + @base" := by
    refine ⟨⟨.arith .add (.column "score") (.reference "base"),
      [⟨.column "score", 1⟩, ⟨.mark .plus, 8⟩, ⟨.reference "base", 10⟩], 15, hrate, ?_⟩, hplain hrate rfl⟩
    exact .orOne (.andOne (.predicateOne (.sumMore (.inl rfl) (.sumOne (.productOne (.unaryOne (.column _))))
      (.productOne (.unaryOne (.reference _))))))
  have hclosed : Closed d "@rate * 2" := by
    refine ⟨⟨⟨x, hx⟩, hplain htop rfl⟩, fun name hname => ?_, fun name entry hname hentry => ?_⟩
    · rcases hfromTop hname with rfl | rfl
      · exact ⟨_, rfl, hreadableRate⟩
      · exact ⟨_, rfl, hreadableBase⟩
    · rcases hfromTop hname with rfl | rfl
      · cases hentry
        exact fun h => absurd (hfromRate h) (by decide)
      · cases hentry
        exact hfromBase _
  have hid : ¬ Reaches d "@rate * 2" "double" := fun h => by simpa using hfromTop h
  exact ⟨hx, hclosed, hid, expandReferences_eq_subst d "double" "@rate * 2" x hx hclosed hid⟩

end ShelfQuery.Shelf
