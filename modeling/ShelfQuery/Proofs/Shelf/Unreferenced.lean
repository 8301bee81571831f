import ShelfQuery.Proofs.Shelf.Expansion
import ShelfQuery.Shelf.Basic

set_option autoImplicit false

/-!
# Texts without references

A text is expanded only if a test finds references in it. The test and the expansion go from character to character;
here a text is cut into pieces, and a literal is taken as a whole.
-/

namespace ShelfQuery.Shelf

open ShelfQuery.Expression ShelfQuery.Recipe
open ShelfQuery.Schema (isNameChar)

/-- The characters of a literal after its opening quote, and what follows it. An escape is taken as a pair, and a
literal that is left open takes all. -/
def splitLiteral (quote : Char) : List Char → List Char × List Char
  | [] => ([], [])
  | [c] => ([c], [])
  | c :: d :: rest =>
    if c = '\\' then (c :: d :: (splitLiteral quote rest).1, (splitLiteral quote rest).2)
    else if c = quote then ([c], d :: rest)
    else (c :: (splitLiteral quote (d :: rest)).1, (splitLiteral quote (d :: rest)).2)

theorem splitLiteral_append (quote : Char) (cs : List Char) :
    (splitLiteral quote cs).1 ++ (splitLiteral quote cs).2 = cs := by
  fun_induction splitLiteral quote cs with
  | case1 => rfl
  | case2 c => rfl
  | case3 d rest ih => rw [List.cons_append, List.cons_append, ih]
  | case4 d rest hc => rfl
  | case5 c d rest hc hquote ih => rw [List.cons_append, ih]

/-- A reference, or a text without one: a literal, or a character outside of literals. -/
inductive Piece where
  | text (chars : List Char)
  | reference (name : List Char)

namespace Piece

def chars : Piece → List Char
  | text chars => chars
  | reference name => '@' :: name

def segments : Piece → List Segment
  | text chars => chars.map .char
  | reference name => [.reference (String.ofList name)]

/-- The piece is a reference, or an `@` that no name follows. -/
def marked (p : Piece) : Bool := p.chars.head? == some '@'

theorem segments_eq_chars {p : Piece} (h : p.marked = false) : p.segments = p.chars.map .char := by
  cases p with
  | text chars => rfl
  | reference name => cases h

end Piece

def pieces : List Char → List Piece
  | [] => []
  | c :: rest =>
    if c ∈ quoteMarks then .text (c :: (splitLiteral c rest).1) :: pieces (splitLiteral c rest).2
    else if c = '@' ∧ rest.takeWhile isNameChar ≠ [] then
      .reference (rest.takeWhile isNameChar) :: pieces (rest.dropWhile isNameChar)
    else .text [c] :: pieces rest
termination_by cs => cs.length
decreasing_by
  · have hlength := congrArg List.length (splitLiteral_append c rest)
    rw [List.length_append] at hlength
    exact Nat.lt_succ_of_le (hlength ▸ Nat.le_add_left ..)
  · exact Nat.lt_succ_of_le (List.dropWhile_suffix isNameChar).length_le
  · exact Nat.lt_succ_self _

theorem pieces_chars (cs : List Char) : (pieces cs).flatMap Piece.chars = cs := by
  fun_induction pieces cs with
  | case1 => rfl
  | case2 c rest hquote ih => rw [List.flatMap_cons, ih, Piece.chars, List.cons_append, splitLiteral_append]
  | case3 c rest hquote hname ih =>
    rw [List.flatMap_cons, ih, Piece.chars, List.cons_append, List.takeWhile_append_dropWhile, hname.1]
  | case4 c rest hquote hname ih =>
    rw [List.flatMap_cons, ih]
    rfl

theorem outside_after (c : Char) : Quoting.outside.after c = if c ∈ quoteMarks then .inside c else .outside := by
  simp [Quoting.after, quoteMarks]

theorem segmentsFrom_inside (quote : Char) (cs : List Char) : segmentsFrom 0 (.inside quote) cs =
    (splitLiteral quote cs).1.map .char ++ segmentsFrom 0 .outside (splitLiteral quote cs).2 := by
  fun_induction splitLiteral quote cs with
  | case1 => rfl
  -- Nothing follows the last character, so it does not matter whether it is a backslash.
  | case2 c => rfl
  | case3 d rest ih => simp [segmentsFrom, Quoting.after, ih]
  | case4 d rest hc => simp [segmentsFrom, Quoting.after, hc]
  | case5 c d rest hc hquote ih => simp [segmentsFrom, Quoting.after, hc, hquote, ← ih]

theorem hasReferencesFrom_inside (quote : Char) (cs : List Char) :
    hasReferencesFrom (.inside quote) cs = hasReferencesFrom .outside (splitLiteral quote cs).2 := by
  fun_induction splitLiteral quote cs with
  | case1 => rfl
  | case2 c => rfl
  | case3 d rest ih => simp [hasReferencesFrom, Quoting.after, ih]
  | case4 d rest hc => simp [hasReferencesFrom, Quoting.after, hc]
  | case5 c d rest hc hquote ih => simp [hasReferencesFrom, Quoting.after, hc, hquote, ← ih]

theorem segmentsFrom_eq_pieces (cs : List Char) :
    segmentsFrom 0 .outside cs = (pieces cs).flatMap Piece.segments := by
  fun_induction pieces cs with
  | case1 => rfl
  | case2 c rest hquote ih =>
    have hat : c ≠ '@' := by
      rintro rfl
      exact absurd hquote (by decide)
    simp [segmentsFrom, outside_after, hquote, hat, segmentsFrom_inside, Piece.segments, ih]
  | case3 c rest hquote hname ih =>
    have hskip := segmentsFrom_skip .outside (rest.takeWhile isNameChar) (rest.dropWhile isNameChar)
    rw [List.takeWhile_append_dropWhile] at hskip
    simp [segmentsFrom, hname, hskip, Piece.segments, ih]
  | case4 c rest hquote hname ih =>
    have hchar : (c == '@' && !(rest.takeWhile isNameChar).isEmpty) = false := by simpa using hname
    simp [segmentsFrom, hchar, outside_after, hquote, Piece.segments, ih]

theorem hasReferencesFrom_eq_pieces (cs : List Char) :
    hasReferencesFrom .outside cs = (pieces cs).any Piece.marked := by
  fun_induction pieces cs with
  | case1 => rfl
  | case2 c rest hquote ih =>
    simp [hasReferencesFrom, outside_after, hquote, hasReferencesFrom_inside, Piece.marked, Piece.chars, ih]
  | case3 c rest hquote hname ih => simp [hasReferencesFrom, hname.1, Piece.marked, Piece.chars]
  | case4 c rest hquote hname ih =>
    simp [hasReferencesFrom, outside_after, hquote, Piece.marked, Piece.chars, ih]

/-- What a shelf would read if it expanded every text. -/
def parseExpanded (s : Shelf) (text : String) (options : Options) : Except RecipeError Field :=
  match expandReferences "" text s.definition with
  | .ok expanded => (s.bench.field expanded options).mapError .expression
  | .error e => .error (.badRecipe (.reference e))

theorem segments_of_not_hasReferences {text : String} (h : hasReferences text = false) :
    segments text = text.toList.map .char := by
  rw [hasReferences, hasReferencesFrom_eq_pieces, List.any_eq_false] at h
  have hpieces : ∀ p ∈ pieces text.toList, p.segments = p.chars.map .char :=
    fun p hp => Piece.segments_eq_chars (Bool.eq_false_iff.mpr (h p hp))
  calc segments text = (pieces text.toList).flatMap Piece.segments := segmentsFrom_eq_pieces _
    _ = (pieces text.toList).flatMap fun p => p.chars.map .char := List.flatMap_congr hpieces
    _ = ((pieces text.toList).flatMap Piece.chars).map .char := List.map_flatMap.symm
    _ = text.toList.map .char := by rw [pieces_chars]

theorem expandReferences_of_chars {text : String} (h : segments text = text.toList.map .char) (id : String)
    (d : Definition) : expandReferences id text d = .ok text := by
  have hexpand (expand : String → Except ReferenceError (List Char)) :
      expandSegments expand (segments text) = .ok text.toList := by
    have hnil : expandSegments expand [] = .ok [] := rfl
    simpa [h] using expandSegments_chars hnil text.toList
  rw [expandReferences, expandWith, hexpand, Except.map, String.ofList_toList]

/-- The expansion and the test for references see the pieces of a text in the same places, whatever its quotes and
escapes are. Where the test finds nothing, expanding the text of any entry in any definition gives the text itself;
so a shelf reads every text as if it expanded all of them. -/
theorem expandReferences_eq_self (text : String) :
    segments text = (pieces text.toList).flatMap Piece.segments ∧
    hasReferences text = (pieces text.toList).any Piece.marked ∧
    (hasReferences text = false → ∀ id d, expandReferences id text d = .ok text) ∧
    ∀ (s : Shelf) (options : Options), s.parse text options = parseExpanded s text options := by
  have hself (h : hasReferences text = false) (id : String) (d : Definition) : expandReferences id text d = .ok text :=
    expandReferences_of_chars (segments_of_not_hasReferences h) id d
  refine ⟨segmentsFrom_eq_pieces _, hasReferencesFrom_eq_pieces _, hself, fun s options => ?_⟩
  cases h : hasReferences text with
  | true =>
    rw [Shelf.parse, Shelf.parseWith, if_pos h]
    rfl
  | false => rw [Shelf.parse, Shelf.parseWith, if_neg (by simp [h]), parseExpanded, hself h]

/-- Quotes of the other kind and escaped ones inside a literal, and a literal that ends in a backslash and not in a
quote. -/
theorem expandReferences_eq_self_open :
    let text := "[name] = \"it's \\\"@pop\\\"\" or 'me@pop\\"
    hasReferences text = false ∧
      expandReferences "label" text [("pop", .field "sum([pop2000])")] = .ok text := by
  intro text
  have htext : hasReferences text = false := by decide +kernel
  exact ⟨htext, (expandReferences_eq_self text).2.2.1 htext _ _⟩

end ShelfQuery.Shelf
