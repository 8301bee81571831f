import ShelfQuery.Engine.Evaluate
import ShelfQuery.Proofs.Number.Identity
import ShelfQuery.Proofs.Number.Positional
import ShelfQuery.Proofs.Number.Reading

set_option autoImplicit false

namespace ShelfQuery.Expression

theorem compareTexts_eq (s t : String) : compareTexts s t =
    if Text.before s.toList t.toList then .lt else if Text.before t.toList s.toList then .gt else .eq := by
  unfold compareTexts
  split
  · rfl
  · next hbefore =>
    by_cases heq : s = t
    · subst heq
      rw [if_pos (beq_self_eq_true s), if_neg hbefore]
    · have hafter := Text.before_of_not (Bool.eq_false_of_not_eq_true hbefore) (mt String.toList_inj.mp heq)
      rw [if_neg (by simpa using heq), if_pos hafter]

end ShelfQuery.Expression

namespace ShelfQuery.Engine

open ShelfQuery.Number ShelfQuery.Rows ShelfQuery.Text
open ShelfQuery.Expression (compareTexts compareTexts_eq holdsFor)

/-- The text has a point among its digits and is read as the double. -/
def Pointed (text : String) (x : Float) : Prop :=
  ∃ whole fraction, text = String.ofList (whole ++ '.' :: fraction) ∧ whole ≠ [] ∧ IsDigits whole ∧ IsDigits fraction ∧
    x = Binary64.ofDecimal false (valueOf (whole ++ fraction)) (-(fraction.length : Int))

theorem withPoint_signText (negative : Bool) (text : String) :
    withPoint (signText negative ++ text) = signText negative ++ withPoint text := by
  cases negative with
  | false => simp [signText]
  | true => by_cases h : '.' ∈ text.toList <;> simp [withPoint, signText, h, String.append_assoc]

theorem withPoint_digits {cs : List Char} (h : IsDigits cs) :
    withPoint (String.ofList cs) = String.ofList (cs ++ '.' :: ['0']) := by
  have hpoint : '.' ∉ cs := fun hmem => absurd (h _ hmem) (by decide)
  have hcontains : (String.ofList cs).toList.contains '.' = false := by simpa using hpoint
  rw [withPoint, hcontains]
  exact String.toList_inj.mp (by simp)

theorem pointed_shortest {m : Nat} {e : Int} (hpos : 0 < m) (hdouble : (Reading.finite false m e).IsDouble) :
    ∃ x, Pointed (withPoint (positional (shortest m e))) x ∧ Binary64.value x = m * 2 ^ e := by
  rcases Int.lt_or_le (shortest m e).exponent 0 with hexponent | hexponent
  · obtain ⟨whole, fraction, htext, hne, hwhole, hfraction, hvalue⟩ := shortest_fraction hdouble hpos hexponent
    refine ⟨_, ⟨whole, fraction, ?_, hne, hwhole, hfraction, rfl⟩, hvalue⟩
    rw [htext]
    simp [withPoint]
  · obtain ⟨whole, htext, hne, hwhole, hvalue⟩ := shortest_point hdouble hexponent
    refine ⟨_, ⟨whole, ['0'], ?_, hne, hwhole, isDigits_zeros 1, rfl⟩, hvalue⟩
    rw [htext, withPoint_digits hwhole]

/-- A finite double is its sign and the double that its digits are read as. -/
theorem pointed_plain {x : Float} (hfinite : Binary64.isFinite x = true) :
    ∃ negative text y, withPoint (plain x) = signText negative ++ text ∧ Pointed text y ∧
      Binary64.isFinite y = true ∧ x = if negative then -y else y := by
  cases hread : Binary64.read x with
  | infinite | notANumber => simp [Binary64.isFinite, hread] at hfinite
  | finite negative m e =>
    have hdouble := isDouble_of_read hread
    have hplain : withPoint (plain x) = signText negative ++ withPoint (positional (shortest m e)) := by
      simp only [plain, hread]
      exact withPoint_signText negative _
    rcases Nat.eq_zero_or_pos m with rfl | hpos
    · -- both zeros have the value zero, so their bits have to be read
      have he : e = -1074 := hdouble.2.2.2.resolve_left (by decide)
      subst he
      refine ⟨negative, _, Float.ofBits 0, hplain, ⟨['0'], ['0'], rfl, by simp, isDigits_zeros 1, isDigits_zeros 1, rfl⟩,
        by decide +kernel, Binary64.eq_of_read hfinite (hread.trans ?_)⟩
      cases negative <;> rfl
    · obtain ⟨y, hy, hvalue⟩ := pointed_shortest hpos hdouble
      have hne : (m * 2 ^ e : ℚ) ≠ 0 := mul_ne_zero (Nat.cast_ne_zero.mpr (by omega)) (two_zpow_pos e).ne'
      refine ⟨negative, _, y, hplain, hy, Binary64.isFinite_of_value (hvalue ▸ hne), ?_⟩
      have hx : Binary64.value x = if negative then -(m * 2 ^ e : ℚ) else m * 2 ^ e := by
        rw [Binary64.value, hread, Reading.value]
        cases negative <;> simp
      cases negative with
      | false => exact Binary64.eq_of_value (hx.trans hvalue.symm) (hx ▸ hne)
      | true =>
        refine Binary64.eq_of_value (hx.trans ?_) (hx ▸ neg_ne_zero.mpr hne)
        rw [if_pos rfl, if_pos rfl, Binary64.value_neg, hvalue]

def Dashed (s : String) : Prop := ∃ ds rest, IsDigits ds ∧ ds ≠ [] ∧ s.toList = ds ++ '-' :: rest

theorem number?_dash {ds : List Char} (hds : IsDigits ds) (hne : ds ≠ []) (rest : List Char) :
    number? (ds ++ '-' :: rest) = none := by
  obtain ⟨d, ds, rfl⟩ := List.exists_cons_of_ne_nil hne
  have hd : d.isDigit = true := hds d (by simp)
  have hwhole : wholeNumber? (d :: (ds ++ '-' :: rest)) = none := by
    rw [wholeNumber?]
    · simp [digitsValue?]
    · exact fun _ heq => ne_of_isDigit hd rfl (List.cons.inj heq).1
    · exact fun _ heq => ne_of_isDigit hd rfl (List.cons.inj heq).1
  simp only [number?, List.cons_append, hwhole, parse?_dash hds]
  split <;> rfl

theorem wholeText?_dashed {s : String} (h : Dashed s) : wholeText? s = none := by
  obtain ⟨ds, rest, hds, hne, hs⟩ := h
  have hstart : (ds ++ '-' :: rest).dropWhile isSpace = ds ++ '-' :: rest := by
    obtain ⟨d, ds, rfl⟩ := List.exists_cons_of_ne_nil hne
    have hd : isSpace d = false := by
      have hdigit := hds d (by simp)
      have hsmall : ¬ d ≤ '\r' := by
        intro hle
        have hcode : d.toNat ≤ 13 := UInt32.le_iff_toNat_le.mp hle
        exact absurd (Nat.le_trans (isDigit_range hdigit).1 hcode) (by decide)
      simp [isSpace, ne_of_isDigit hdigit (show ' '.isDigit = false from rfl), hsmall]
    rw [List.cons_append, List.dropWhile_cons_of_neg (by simp [hd])]
  have hend : (ds ++ '-' :: rest).reverse.dropWhile isSpace =
      (ds ++ '-' :: (rest.reverse.dropWhile isSpace).reverse).reverse := by
    have hdash : isSpace '-' = false := rfl
    simp only [List.reverse_append, List.reverse_cons, List.append_assoc, List.reverse_reverse, List.dropWhile_append]
    split
    · next hblank => simp [List.isEmpty_iff.mp hblank, hdash]
    · rfl
  rw [wholeText?, hs, hstart, hend, List.reverse_reverse, number?_dash hds hne]

/-- The affinity of a column leaves the text as it is. -/
def Affinity.Keeps (a : Affinity) (s : String) : Prop := a.apply (.text s) = .text s

/-- A text that is no number is kept, whatever the declared type of the column. -/
theorem Dashed.keeps {s : String} (h : Dashed s) (a : Affinity) : a.Keeps s := by
  cases a with
  | numeric => exact congrArg (Option.getD · (Cell.text s)) (wholeText?_dashed h)
  | _ => rfl

theorem holds_texts {op : Sql.CompareOp} (hop : op ≠ .like) {a : Affinity} {s t : String} (hs : a.Keeps s)
    (ht : a.Keeps t) : holds op a (.text s) (.text t) = holdsFor op (compareTexts s t) := by
  have hnull : ((Cell.text s).isNull || (Cell.text t).isNull) = false := rfl
  rw [holds, hnull, if_neg Bool.false_ne_true, if_neg hop, hs, ht]
  rfl

theorem holds_ge_texts {a : Affinity} {s t : String} (hs : a.Keeps s) (ht : a.Keeps t) :
    holds .ge a (.text s) (.text t) = some (!Text.before s.toList t.toList) := by
  rw [holds_texts (by decide) hs ht, compareTexts_eq]
  split
  · next hlt => simp [holdsFor, hlt]
  · next hge =>
    rw [Bool.eq_false_of_not_eq_true hge]
    split <;> rfl

theorem holds_le_texts {a : Affinity} {s t : String} (hs : a.Keeps s) (ht : a.Keeps t) :
    holds .le a (.text s) (.text t) = some (!Text.before t.toList s.toList) := by
  rw [holds_texts (by decide) hs ht, compareTexts_eq]
  split
  · next hlt => simp [holdsFor, Text.before_asymm hlt]
  · split
    · next hgt => simp [holdsFor, hgt]
    · next hle => simp [holdsFor, hle]

end ShelfQuery.Engine
