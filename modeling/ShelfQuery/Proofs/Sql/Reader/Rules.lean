import ShelfQuery.Proofs.Sql.Reader.Parser

set_option autoImplicit false

/-!
# How texts are read

`Parses k ts e` says that the tokens `ts` are read as `e` wherever something that binds no tighter than `k` follows.
There is a rule for each way in which texts are put together.
-/

namespace ShelfQuery.Sql.Reader

def Token.stops (level : Nat) (t : Token) : Bool :=
  t != .symbol .dot && t != .symbol .openParen && t.level?.all (· < level)

def Stops (level : Nat) (ts : List Token) : Prop := ts.head?.all (Token.stops level) = true

theorem Stops.mono {m n : Nat} {ts : List Token} (h : Stops m ts) (hle : m ≤ n) : Stops n ts := by
  cases ts with
  | nil => rfl
  | cons t rest =>
    simp only [Stops, List.head?_cons, Option.all_some, Token.stops, Bool.and_eq_true] at h ⊢
    refine ⟨h.1, ?_⟩
    cases hlevel : t.level? with
    | none => rfl
    | some k =>
      have hk : k < m := by simpa [hlevel] using h.2
      simpa using Nat.lt_of_lt_of_le hk hle

theorem Stops.head_ne_dot {k : Nat} {ts : List Token} (h : Stops k ts) : ts.head? ≠ some (.symbol .dot) := by
  intro hhead
  simp [Stops, hhead, Token.stops] at h

theorem Stops.head_ne_openParen {k : Nat} {ts : List Token} (h : Stops k ts) :
    ts.head? ≠ some (.symbol .openParen) := by
  intro hhead
  simp [Stops, hhead, Token.stops] at h

theorem readMore_stops {level fuel : Nat} {ts : List Token} (h : Stops level ts) (hfuel : 0 < fuel) (e : Expr) :
    readMore fuel level e ts = some (e, ts) := by
  obtain ⟨fuel, rfl⟩ : ∃ f, fuel = f + 1 := ⟨fuel - 1, by omega⟩
  cases ts with
  | nil => rfl
  | cons t rest =>
    simp only [Stops, List.head?_cons, Option.all_some, Token.stops, Bool.and_eq_true] at h
    rw [readMore]
    cases hlevel : t.level? with
    | none => rfl
    | some n =>
      have hn : n < level := by simpa [hlevel] using h.2
      simp [hn]

theorem readWord_of_head_ne_dot (read : LevelReader) (w : String) {rest : List Token} (h : rest.head? ≠ some (.symbol .dot)) :
    readWord read w rest = readPlainWord read w rest := by
  unfold readWord
  split
  · exact absurd rfl h
  · exact absurd rfl h
  · rfl

theorem not_isBareName_of_reserved {w : String} (h : reservedWords.contains (Text.lower w) = true) :
    isBareName w = false := by
  unfold isBareName
  split
  · rfl
  · rw [h]
    simp

theorem readWord_reserved (read : LevelReader) {w : String} (hw : Text.lower w = "select" ∨ Text.lower w = "distinct")
    (rest : List Token) : readWord read w rest = none := by
  have hreserved : reservedWords.contains (Text.lower w) = true := by
    rcases hw with hw | hw <;> rw [hw] <;> decide
  have hbare := not_isBareName_of_reserved hreserved
  have hplain : readPlainWord read w rest = none := by
    rcases hw with hw | hw <;> simp only [readPlainWord, hw, hbare] <;> cases skipSymbol .openParen rest <;> rfl
  unfold readWord
  split <;> simp [isTableName, hbare, hplain]

/-- `readMore` goes on with what follows the tokens. -/
def Parses (k : Nat) (ts : List Token) (e : Expr) : Prop :=
  ∀ (level fuel : Nat) (rest : List Token), level ≤ k → Stops (k + 1) rest → ts.length < fuel →
    ∃ fuel', fuel ≤ fuel' + ts.length ∧ readExpr fuel level (ts ++ rest) = readMore fuel' level e rest

namespace Parses

variable {k m : Nat} {ts us : List Token} {e l r : Expr}

theorem read (h : Parses k ts e) {level fuel : Nat} {rest : List Token} (hlevel : level ≤ k) (hrest : Stops level rest)
    (hfuel : ts.length < fuel) : readExpr fuel level (ts ++ rest) = some (e, rest) := by
  obtain ⟨fuel', hfuel', heq⟩ := h level fuel rest hlevel (hrest.mono (by omega)) hfuel
  rw [heq, readMore_stops hrest (by omega)]

theorem mono (h : Parses k ts e) (hle : m ≤ k) : Parses m ts e :=
  fun level fuel rest hlevel hrest hfuel => h level fuel rest (by omega) (hrest.mono (by omega)) hfuel

theorem of_operand (h : ∀ (fuel : Nat) (rest : List Token), Stops (k + 1) rest → ts.length ≤ fuel →
    readOperand (readExpr fuel) (ts ++ rest) = some (e, rest)) : Parses k ts e := by
  intro level fuel rest hlevel hrest hfuel
  obtain ⟨fuel, rfl⟩ : ∃ f, fuel = f + 1 := ⟨fuel - 1, by omega⟩
  have hne : ts ≠ [] := by
    rintro rfl
    have hnone := h 0 [] rfl (Nat.le_refl 0)
    exact nomatch hnone
  have hlen := List.length_pos_iff.mpr hne
  refine ⟨fuel, by omega, ?_⟩
  rw [readExpr, h fuel rest hrest (by omega)]
  rfl

theorem suffix (hl : Parses m ts l) (hk : k ≤ m) {t : Token} (ht : t.level? = some k)
    (h : ∀ (fuel : Nat) (rest : List Token), Stops (k + 1) rest → us.length < fuel →
      readSuffix (readExpr fuel) l t (us ++ rest) = some (e, rest)) : Parses k (ts ++ t :: us) e := by
  intro level fuel rest hlevel hrest hfuel
  simp only [List.length_append, List.length_cons] at hfuel ⊢
  have hstop : Stops (m + 1) (t :: (us ++ rest)) := by
    have hdot : t ≠ .symbol .dot := by
      rintro rfl
      exact nomatch ht
    have hparen : t ≠ .symbol .openParen := by
      rintro rfl
      exact nomatch ht
    simp [Stops, Token.stops, ht, hdot, hparen]
    omega
  obtain ⟨fuel₁, hfuel₁, heq⟩ := hl level fuel (t :: (us ++ rest)) (by omega) hstop (by omega)
  obtain ⟨f, rfl⟩ : ∃ f, fuel₁ = f + 1 := ⟨fuel₁ - 1, by omega⟩
  refine ⟨f, by omega, ?_⟩
  rw [List.append_assoc, List.cons_append, heq, readMore, ht]
  simp only [if_neg (show ¬ k < level by omega), h f rest hrest (by omega)]
  rfl

theorem binary {op : BinaryOp} {t : Token} (ht : t.binary? = some op) (hl : Parses m ts l) (hr : Parses k us r)
    (hm : op.level ≤ m) (hk : op.level < k) : Parses op.level (ts ++ t :: us) (op.apply l r) := by
  refine hl.suffix hm (by simp [Token.level?, ht]) fun fuel rest hrest hfuel => ?_
  simp [readSuffix, ht, hr.read hk hrest hfuel]

theorem isNull (h : Parses m ts e) (hm : comparisonLevel ≤ m) (negated : Bool) :
    Parses comparisonLevel (ts ++ .word "IS" :: ((if negated then [.word "NOT"] else []) ++ [.word "NULL"]))
      (.isNull e negated) := by
  refine h.suffix hm rfl fun fuel rest _ _ => ?_
  cases negated <;> rfl

theorem between {low high : Expr} {vs : List Token} (h : Parses m ts e) (hlow : Parses k us low) (hhigh : Parses k vs high)
    (hm : comparisonLevel ≤ m) (hk : comparisonLevel < k) :
    Parses comparisonLevel (ts ++ .word "BETWEEN" :: (us ++ .word "AND" :: vs)) (.between e low high) := by
  refine h.suffix hm rfl fun fuel rest hrest hfuel => ?_
  simp only [List.length_append, List.length_cons] at hfuel
  have hlow' : readExpr fuel (comparisonLevel + 1) (us ++ .word "AND" :: (vs ++ rest)) =
      some (low, .word "AND" :: (vs ++ rest)) := hlow.read hk rfl (by omega)
  have hhigh' : readExpr fuel (comparisonLevel + 1) (vs ++ rest) = some (high, rest) :=
    hhigh.read hk hrest (by omega)
  have hsuffix : readSuffix (readExpr fuel) e (.word "BETWEEN") (us ++ .word "AND" :: vs ++ rest) =
      readBetween (readExpr fuel) e (us ++ .word "AND" :: vs ++ rest) := rfl
  have hand : skipWord "and" (.word "AND" :: (vs ++ rest)) = some (vs ++ rest) := rfl
  rw [hsuffix, readBetween, List.append_assoc, List.cons_append, hlow']
  simp [hand, hhigh']

theorem operand_ne_none (h : Parses k ts e) : readOperand (readExpr ts.length) ts ≠ none := by
  intro hnone
  have hread : readExpr (ts.length + 1) 0 (ts ++ []) = some (e, []) := h.read (Nat.zero_le k) rfl (Nat.lt_succ_self _)
  rw [List.append_nil, readExpr, hnone] at hread
  exact nomatch hread

theorem cons (h : Parses k ts e) : ∃ t us, ts = t :: us := by
  cases ts with
  | nil => exact absurd rfl h.operand_ne_none
  | cons t us => exact ⟨t, us, rfl⟩

theorem head_ne_dot (h : Parses k ts e) (rest : List Token) : (ts ++ rest).head? ≠ some (.symbol .dot) := by
  obtain ⟨t, us, rfl⟩ := h.cons
  rintro ⟨⟩
  exact h.operand_ne_none rfl

theorem skipSymbol_eq_none (h : Parses k ts e) {s : Symbol} (hs : s = .closeParen ∨ s = .star) (rest : List Token) :
    skipSymbol s (ts ++ rest) = none := by
  obtain ⟨t, us, rfl⟩ := h.cons
  rw [List.cons_append, skipSymbol, if_neg]
  rintro rfl
  rcases hs with rfl | rfl <;> exact h.operand_ne_none rfl

theorem skipWord_eq_none (h : Parses k ts e) {w : String} (hw : w = "select" ∨ w = "distinct") (rest : List Token) :
    skipWord w (ts ++ rest) = none := by
  obtain ⟨t, us, rfl⟩ := h.cons
  rw [List.cons_append, skipWord, if_neg]
  intro ht
  refine h.operand_ne_none ?_
  cases t with
  | word v =>
    have hv : Text.lower v = w := ht
    exact readWord_reserved _ (by rwa [hv]) us
  | _ =>
    have hempty : "" = w := ht
    rcases hw with rfl | rfl <;> exact absurd hempty (by decide)

theorem paren (h : Parses k ts e) : Parses m (.symbol .openParen :: (ts ++ [.symbol .closeParen])) e := by
  refine of_operand fun fuel rest _ hfuel => ?_
  simp only [List.length_append, List.length_cons, List.length_nil] at hfuel
  have hread : readExpr fuel 0 (ts ++ .symbol .closeParen :: rest) = some (e, .symbol .closeParen :: rest) :=
    h.read (Nat.zero_le k) rfl (by omega)
  have hclose : skipSymbol .closeParen (.symbol .closeParen :: rest) = some rest := rfl
  have hoperand : readOperand (readExpr fuel) (.symbol .openParen :: (ts ++ [.symbol .closeParen]) ++ rest) =
      readParen (readExpr fuel) (ts ++ .symbol .closeParen :: rest) := by simp [readOperand]
  rw [hoperand, readParen, h.skipWord_eq_none (.inl rfl)]
  simp [hread, hclose]

theorem neg (h : Parses signLevel ts e) : Parses 9 (.symbol .minus :: ts) (.neg e) := by
  refine of_operand fun fuel rest hrest hfuel => ?_
  have hread : readExpr fuel signLevel (ts ++ rest) = some (e, rest) := h.read (Nat.le_refl _) hrest hfuel
  simp [readOperand, hread]

theorem not (h : Parses k ts e) (hk : comparisonLevel ≤ k) : Parses 4 (.word "NOT" :: ts) (.not e) := by
  refine of_operand fun fuel rest hrest hfuel => ?_
  have hread : readExpr fuel comparisonLevel (ts ++ rest) = some (e, rest) := h.read hk hrest hfuel
  have hword : readPlainWord (readExpr fuel) "NOT" (ts ++ rest) =
      (readExpr fuel comparisonLevel (ts ++ rest)).bind fun r => some (.not r.1, r.2) := rfl
  rw [List.cons_append, readOperand, readWord_of_head_ne_dot _ _ (h.head_ne_dot rest), hword, hread]
  rfl

theorem integer (n : Nat) : Parses k [.integer n] (.literal (integerLiteral n)) := of_operand fun _ _ _ _ => rfl

theorem decimal (n places : Nat) :
    Parses k [.decimal n places] (.literal (.float (Number.Binary64.ofDecimal false n (-(places : Int))))) :=
  of_operand fun _ _ _ _ => rfl

theorem text (s : String) : Parses k [.text s] (.literal (.text s)) := of_operand fun _ _ _ _ => rfl

theorem null : Parses k [.word "NULL"] (.literal .null) :=
  of_operand fun _ _ hrest _ => readWord_of_head_ne_dot _ _ hrest.head_ne_dot

theorem skipSymbol_openParen_of_stops {ts : List Token} (h : Stops k ts) : skipSymbol .openParen ts = none := by
  cases ts with
  | nil => rfl
  | cons t rest =>
    rw [skipSymbol, if_neg]
    rintro rfl
    exact h.head_ne_openParen rfl

theorem bool (b : Bool) : Parses k [.word (if b then "true" else "false")] (.literal (.bool b)) := by
  refine of_operand fun fuel rest hrest _ => ?_
  rw [List.cons_append, List.nil_append, readOperand, readWord_of_head_ne_dot _ _ hrest.head_ne_dot]
  cases b <;> simp only [readPlainWord, skipSymbol_openParen_of_stops hrest] <;> rfl

theorem column {table name : String} (htable : isTableName table = true) (hname : isBareName name = true) :
    Parses k [.word table, .symbol .dot, .word name] (.column table name) := by
  refine of_operand fun fuel rest hrest _ => ?_
  have hdot := hrest.head_ne_dot
  simp only [List.cons_append, List.nil_append, readOperand, readWord]
  split
  · next heq =>
    cases heq
    exact absurd rfl hdot
  · next heq =>
    cases heq
    simp [htable, hname]
  · next h => exact absurd rfl (h _ _)

theorem qualifiedColumn {database table name : String} (hdatabase : isTableName database = true)
    (htable : isBareName table = true) (hname : isBareName name = true) :
    Parses k [.word database, .symbol .dot, .word table, .symbol .dot, .word name]
      (.column (database ++ "." ++ table) name) := by
  refine of_operand fun fuel rest _ _ => ?_
  simp [readOperand, readWord, hdatabase, htable, hname]

end Parses

/-- Tokens that are read as the items of a list, up to the parenthesis that closes it. -/
def ParsesArgs (ts : List Token) (es : List Expr) : Prop :=
  ∀ (fuel : Nat) (rest : List Token), ts.length < fuel →
    readArgs (readExpr fuel) (ts ++ .symbol .closeParen :: rest) = some (es, rest)

inductive ParsesItems : List Token → List Expr → Prop where
  | one {ts e} : Parses 0 ts e → ParsesItems ts [e]
  | cons {ts us e es} : Parses 0 ts e → ParsesItems us es → ParsesItems (ts ++ .symbol .comma :: us) (e :: es)

namespace ParsesItems

variable {ts : List Token} {es : List Expr}

theorem length_le (h : ParsesItems ts es) : es.length ≤ ts.length := by
  induction h with
  | one h =>
    obtain ⟨t, us, rfl⟩ := h.cons
    simp
  | cons _ _ ih =>
    simp only [List.length_append, List.length_cons]
    omega

theorem readItems_eq (h : ParsesItems ts es) {fuel count : Nat} (hfuel : ts.length < fuel) (hcount : es.length ≤ count)
    (rest : List Token) :
    readItems (readExpr fuel) count (ts ++ .symbol .closeParen :: rest) = some (es, .symbol .closeParen :: rest) := by
  induction h generalizing count with
  | @one ts e h =>
    obtain ⟨count, rfl⟩ : ∃ n, count = n + 1 := ⟨count - 1, by simp at hcount; omega⟩
    have hread : readExpr fuel 0 (ts ++ .symbol .closeParen :: rest) = some (e, .symbol .closeParen :: rest) :=
      h.read (Nat.le_refl 0) rfl hfuel
    have hcomma : skipSymbol .comma (.symbol .closeParen :: rest) = none := rfl
    simp [readItems, hread, hcomma]
  | @cons ts us e es h _ ih =>
    obtain ⟨count, rfl⟩ : ∃ n, count = n + 1 := ⟨count - 1, by simp at hcount; omega⟩
    simp only [List.length_append, List.length_cons] at hfuel hcount
    have hread : readExpr fuel 0 (ts ++ .symbol .comma :: (us ++ .symbol .closeParen :: rest)) =
        some (e, .symbol .comma :: (us ++ .symbol .closeParen :: rest)) := h.read (Nat.le_refl 0) rfl (by omega)
    have hcomma : skipSymbol .comma (.symbol .comma :: (us ++ .symbol .closeParen :: rest)) =
        some (us ++ .symbol .closeParen :: rest) := rfl
    have hitems := @ih count (by omega) (by omega)
    simp [readItems, hread, hcomma, hitems]

theorem args (h : ParsesItems ts es) : ParsesArgs ts es := by
  intro fuel rest hfuel
  have hclose : skipSymbol .closeParen (ts ++ .symbol .closeParen :: rest) = none := by
    cases h with
    | one h => exact h.skipSymbol_eq_none (.inl rfl) _
    | cons h _ =>
      rw [List.append_assoc]
      exact h.skipSymbol_eq_none (.inl rfl) _
  have hcount : es.length ≤ (ts ++ .symbol .closeParen :: rest).length := by
    have hle := h.length_le
    simp only [List.length_append]
    omega
  have hskip : skipSymbol .closeParen (.symbol .closeParen :: rest) = some rest := rfl
  simp only [readArgs, hclose, h.readItems_eq hfuel hcount rest]
  simp [hskip]

end ParsesItems

theorem parsesArgs_nil : ParsesArgs [] [] := fun _ _ _ => rfl

namespace Parses

variable {k m : Nat} {ts us : List Token} {e : Expr} {es : List Expr}

theorem readIn_eq (h : ParsesArgs us es) {fuel : Nat} (hfuel : us.length < fuel) (negated : Bool) (rest : List Token) :
    readIn (readExpr fuel) e negated (.symbol .openParen :: (us ++ .symbol .closeParen :: rest)) =
      some (.inList e es negated, rest) := by
  have hskip : skipSymbol .openParen (.symbol .openParen :: (us ++ .symbol .closeParen :: rest)) =
      some (us ++ .symbol .closeParen :: rest) := rfl
  simp [readIn, hskip, h fuel rest hfuel]

theorem inList (h : Parses m ts e) (hitems : ParsesArgs us es) (hm : comparisonLevel ≤ m) :
    Parses comparisonLevel (ts ++ .word "IN" :: .symbol .openParen :: (us ++ [.symbol .closeParen]))
      (.inList e es false) := by
  refine h.suffix hm rfl fun fuel rest _ hfuel => ?_
  simp only [List.length_append, List.length_cons] at hfuel
  rw [List.cons_append, List.append_assoc]
  exact readIn_eq hitems (by omega) false rest

theorem notInList (h : Parses m ts e) (hitems : ParsesArgs us es) (hm : comparisonLevel ≤ m) :
    Parses comparisonLevel (ts ++ .word "NOT" :: .word "IN" :: .symbol .openParen :: (us ++ [.symbol .closeParen]))
      (.inList e es true) := by
  refine h.suffix hm rfl fun fuel rest _ hfuel => ?_
  simp only [List.length_append, List.length_cons] at hfuel
  rw [List.cons_append, List.cons_append, List.append_assoc]
  exact readIn_eq hitems (by omega) true rest

/-- `hname` says that `name` is no word of the grammar. -/
theorem of_readCall {name : String} (hname : ∀ (read : LevelReader) (rest : List Token),
    readPlainWord read name (.symbol .openParen :: rest) = readCall read name rest)
    (h : ∀ (fuel : Nat) (rest : List Token), ts.length < fuel → readCall (readExpr fuel) name (ts ++ rest) = some (e, rest)) :
    Parses k (.word name :: .symbol .openParen :: ts) e := by
  refine of_operand fun fuel rest _ hfuel => ?_
  have hparen : (Token.symbol .openParen :: (ts ++ rest)).head? ≠ some (.symbol .dot) := by simp
  rw [List.cons_append, List.cons_append, readOperand, readWord_of_head_ne_dot _ _ hparen, hname]
  simp only [List.length_cons] at hfuel
  exact h fuel rest (by omega)

section

variable {name : String} (hname : ∀ (read : LevelReader) (rest : List Token),
    readPlainWord read name (.symbol .openParen :: rest) = readCall read name rest)

include hname

theorem call (h : ParsesItems ts es) :
    Parses k (.word name :: .symbol .openParen :: (ts ++ [.symbol .closeParen])) (.call name es) := by
  obtain ⟨us, vs, hts, d, hus⟩ : ∃ us vs, ts = us ++ vs ∧ ∃ d, Parses 0 us d := by
    cases h with
    | one h => exact ⟨_, [], (List.append_nil _).symm, _, h⟩
    | cons h _ => exact ⟨_, _, rfl, _, h⟩
  refine of_readCall hname fun fuel rest hfuel => ?_
  simp only [List.length_append, List.length_cons] at hfuel
  have hstar : skipSymbol .star (ts ++ .symbol .closeParen :: rest) = none := by
    rw [hts, List.append_assoc]
    exact hus.skipSymbol_eq_none (.inr rfl) _
  have hdistinct : skipWord "distinct" (ts ++ .symbol .closeParen :: rest) = none := by
    rw [hts, List.append_assoc]
    exact hus.skipWord_eq_none (.inr rfl) _
  rw [List.append_assoc, List.cons_append, List.nil_append, readCall, hstar, hdistinct]
  simp [h.args fuel rest (by omega)]

theorem callStar : Parses k [.word name, .symbol .openParen, .symbol .star, .symbol .closeParen] (.call name [.star]) :=
  of_readCall hname fun _ _ _ => rfl

end

theorem countDistinct (h : Parses m ts e) :
    Parses k (.word "count" :: .symbol .openParen :: .word "DISTINCT" :: (ts ++ [.symbol .closeParen]))
      (.countDistinct e) := by
  refine of_readCall (fun _ _ => rfl) fun fuel rest hfuel => ?_
  simp only [List.length_append, List.length_cons] at hfuel
  have hread : readExpr fuel 0 (ts ++ .symbol .closeParen :: rest) = some (e, .symbol .closeParen :: rest) :=
    h.read (Nat.zero_le m) rfl (by omega)
  have hstar : skipSymbol .star (.word "DISTINCT" :: (ts ++ .symbol .closeParen :: rest)) = none := rfl
  have hdistinct : skipWord "distinct" (.word "DISTINCT" :: (ts ++ .symbol .closeParen :: rest)) =
      some (ts ++ .symbol .closeParen :: rest) := rfl
  have hclose : skipSymbol .closeParen (.symbol .closeParen :: rest) = some rest := rfl
  have hcount : Text.lower "count" = "count" := rfl
  rw [List.cons_append, List.append_assoc, List.cons_append, List.nil_append, readCall, hstar, hdistinct]
  simp [hread, hclose, hcount]

theorem cast (h : Parses m ts e) (type : CastType) :
    Parses k (.word "CAST" :: .symbol .openParen :: (ts ++ [.word "AS", .word type.name, .symbol .closeParen]))
      (.cast e type) := by
  refine of_operand fun fuel rest _ hfuel => ?_
  simp only [List.length_append, List.length_cons] at hfuel
  have hread : readExpr fuel 0 (ts ++ .word "AS" :: .word type.name :: .symbol .closeParen :: rest) =
      some (e, .word "AS" :: .word type.name :: .symbol .closeParen :: rest) :=
    h.read (Nat.zero_le m) rfl (by omega)
  have has : skipWord "as" (.word "AS" :: .word type.name :: .symbol .closeParen :: rest) =
      some (.word type.name :: .symbol .closeParen :: rest) := rfl
  have htype : readType (.word type.name :: .symbol .closeParen :: rest) = some (type, .symbol .closeParen :: rest) := by
    cases type <;> rfl
  have hclose : skipSymbol .closeParen (.symbol .closeParen :: rest) = some rest := rfl
  have hopen : skipSymbol .openParen (.symbol .openParen ::
      (ts ++ .word "AS" :: .word type.name :: .symbol .closeParen :: rest)) =
      some (ts ++ .word "AS" :: .word type.name :: .symbol .closeParen :: rest) := rfl
  have hcast : readOperand (readExpr fuel) (.word "CAST" :: .symbol .openParen ::
      (ts ++ [.word "AS", .word type.name, .symbol .closeParen]) ++ rest) =
      readCast (readExpr fuel) (.symbol .openParen ::
        (ts ++ .word "AS" :: .word type.name :: .symbol .closeParen :: rest)) := by
    rw [List.cons_append, List.cons_append, List.append_assoc]
    rfl
  rw [hcast, readCast, hopen]
  simp [hread, has, htype, hclose]

end Parses

inductive ParsesClause (word : String) : List Token → Option Expr → Prop where
  | missing : ParsesClause word [] none
  | present {ts e} : Parses 0 ts e → ParsesClause word (.word word :: ts) (some e)

theorem ParsesClause.readClause_eq {word : String} {ts : List Token} {o : Option Expr} (h : ParsesClause word ts o)
    {fuel : Nat} (hfuel : ts.length < fuel) {rest : List Token} (hrest : Stops 0 rest)
    (hskip : skipWord (Text.lower word) rest = none) :
    readClause (readExpr fuel) (Text.lower word) (ts ++ rest) = some (o, rest) := by
  cases h with
  | missing => simp [readClause, hskip]
  | @present ts e h =>
    simp only [List.length_cons] at hfuel
    have hread : readExpr fuel 0 (ts ++ rest) = some (e, rest) := h.read (Nat.le_refl 0) hrest (by omega)
    have hword : skipWord (Text.lower word) (.word word :: (ts ++ rest)) = some (ts ++ rest) := by
      simp [skipWord, Token.keyword]
    simp [readClause, hword, hread]

theorem ParsesClause.stops {word : String} (hword : Token.stops 0 (.word word) = true) {ts : List Token} {o : Option Expr}
    (h : ParsesClause word ts o) {rest : List Token} (hrest : Stops 0 rest) : Stops 0 (ts ++ rest) := by
  cases h with
  | missing => exact hrest
  | present => exact hword

inductive ParsesWhens : List Token → List (Expr × Expr) → Prop where
  | nil : ParsesWhens [] []
  | cons {ts us vs condition value whens} : Parses 0 ts condition → Parses 0 us value → ParsesWhens vs whens →
      ParsesWhens (.word "WHEN" :: (ts ++ .word "THEN" :: (us ++ vs))) ((condition, value) :: whens)

namespace ParsesWhens

variable {ts : List Token} {whens : List (Expr × Expr)}

theorem stops (h : ParsesWhens ts whens) {rest : List Token} (hrest : Stops 0 rest) : Stops 0 (ts ++ rest) := by
  cases h with
  | nil => exact hrest
  | cons => rfl

theorem length_le (h : ParsesWhens ts whens) : whens.length ≤ ts.length := by
  induction h with
  | nil => simp
  | cons _ _ _ ih =>
    simp only [List.length_append, List.length_cons]
    omega

theorem readWhens_eq (h : ParsesWhens ts whens) {fuel count : Nat} (hfuel : ts.length < fuel)
    (hcount : whens.length < count) {rest : List Token} (hrest : Stops 0 rest) (hskip : skipWord "when" rest = none) :
    readWhens (readExpr fuel) count (ts ++ rest) = some (whens, rest) := by
  induction h generalizing count with
  | nil =>
    obtain ⟨count, rfl⟩ : ∃ n, count = n + 1 := ⟨count - 1, by omega⟩
    simp [readWhens, hskip]
  | @cons ts us vs condition value whens hcondition hvalue hwhens ih =>
    simp only [List.length_append, List.length_cons] at hfuel hcount
    obtain ⟨count, rfl⟩ : ∃ n, count = n + 1 := ⟨count - 1, by omega⟩
    have hwhen : skipWord "when" (.word "WHEN" :: (ts ++ .word "THEN" :: (us ++ (vs ++ rest)))) =
        some (ts ++ .word "THEN" :: (us ++ (vs ++ rest))) := rfl
    have hthen : skipWord "then" (.word "THEN" :: (us ++ (vs ++ rest))) = some (us ++ (vs ++ rest)) := rfl
    have hread : readExpr fuel 0 (ts ++ .word "THEN" :: (us ++ (vs ++ rest))) =
        some (condition, .word "THEN" :: (us ++ (vs ++ rest))) := hcondition.read (Nat.le_refl 0) rfl (by omega)
    have hread' : readExpr fuel 0 (us ++ (vs ++ rest)) = some (value, vs ++ rest) :=
      hvalue.read (Nat.le_refl 0) (hwhens.stops hrest) (by omega)
    have hmore := @ih count (by omega) (by omega)
    simp [readWhens, hwhen, hread, hthen, hread', hmore]

end ParsesWhens

namespace Parses

variable {k : Nat} {ts us vs : List Token}

theorem case {whens : List (Expr × Expr)} {otherwise : Option Expr} (hne : whens ≠ []) (hwhens : ParsesWhens ts whens)
    (helse : ParsesClause "ELSE" us otherwise) :
    Parses k (.word "CASE" :: (ts ++ (us ++ [.word "END"]))) (.case whens otherwise) := by
  refine of_operand fun fuel rest _ hfuel => ?_
  simp only [List.length_append, List.length_cons] at hfuel
  have hstops : Stops 0 (us ++ .word "END" :: rest) := helse.stops rfl rfl
  have hskip : skipWord "when" (us ++ .word "END" :: rest) = none := by
    cases helse <;> rfl
  have hread := hwhens.readWhens_eq (show ts.length < fuel by omega)
    (show whens.length < (ts ++ (us ++ .word "END" :: rest)).length by
      have := hwhens.length_le
      simp only [List.length_append, List.length_cons]
      omega) hstops hskip
  have hclause : readClause (readExpr fuel) "else" (us ++ .word "END" :: rest) = some (otherwise, .word "END" :: rest) :=
    helse.readClause_eq (by omega) (show Stops 0 (.word "END" :: rest) from rfl) rfl
  have hend : skipWord "end" (.word "END" :: rest) = some rest := rfl
  have hdot : (ts ++ (us ++ .word "END" :: rest)).head? ≠ some (.symbol .dot) := (hwhens.stops hstops).head_ne_dot
  have hcase : readPlainWord (readExpr fuel) "CASE" (ts ++ (us ++ .word "END" :: rest)) =
      readCase (readExpr fuel) (ts ++ (us ++ .word "END" :: rest)) := rfl
  have htokens : ts ++ (us ++ [.word "END"]) ++ rest = ts ++ (us ++ .word "END" :: rest) := by simp
  rw [List.cons_append, htokens, readOperand, readWord_of_head_ne_dot _ _ hdot, hcase, readCase, hread]
  simp [hclause, hend, hne]

theorem select {value : Expr} {table : String} {condition : Option Expr} (hvalue : Parses 0 ts value)
    (htable : ∀ rest : List Token, rest.head? ≠ some (.symbol .dot) → readTable (us ++ rest) = some (table, rest))
    (hcondition : ParsesClause "WHERE" vs condition) :
    Parses k (.symbol .openParen :: .word "SELECT" ::
      (ts ++ .word "FROM" :: (us ++ (vs ++ [.symbol .closeParen])))) (.select value table condition) := by
  refine of_operand fun fuel rest _ hfuel => ?_
  simp only [List.length_append, List.length_cons] at hfuel
  have hread : readExpr fuel 0 (ts ++ .word "FROM" :: (us ++ (vs ++ .symbol .closeParen :: rest))) =
      some (value, .word "FROM" :: (us ++ (vs ++ .symbol .closeParen :: rest))) :=
    hvalue.read (Nat.le_refl 0) rfl (by omega)
  have hfrom : skipWord "from" (.word "FROM" :: (us ++ (vs ++ .symbol .closeParen :: rest))) =
      some (us ++ (vs ++ .symbol .closeParen :: rest)) := rfl
  have hstops : Stops 0 (.symbol .closeParen :: rest) := rfl
  have htable' := htable (vs ++ .symbol .closeParen :: rest) (hcondition.stops rfl hstops).head_ne_dot
  have hclause : readClause (readExpr fuel) "where" (vs ++ .symbol .closeParen :: rest) =
      some (condition, .symbol .closeParen :: rest) := hcondition.readClause_eq (by omega) hstops rfl
  have hclose : skipSymbol .closeParen (.symbol .closeParen :: rest) = some rest := rfl
  have hselect : readOperand (readExpr fuel) (.symbol .openParen :: .word "SELECT" ::
      (ts ++ .word "FROM" :: (us ++ (vs ++ [.symbol .closeParen]))) ++ rest) =
      readSelect (readExpr fuel) (ts ++ .word "FROM" :: (us ++ (vs ++ .symbol .closeParen :: rest))) := by
    simp only [List.cons_append, List.append_assoc, List.nil_append]
    rfl
  rw [hselect, readSelect, hread]
  simp [hfrom, htable', hclause, hclose]

end Parses

end ShelfQuery.Sql.Reader
