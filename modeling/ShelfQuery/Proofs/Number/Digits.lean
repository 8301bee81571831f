import Mathlib.Algebra.Group.Nat.Defs
import ShelfQuery.Number.Text
import ShelfQuery.Proofs.Text.Order
import ShelfQuery.Proofs.Text.Words

set_option autoImplicit false

namespace ShelfQuery.Number

open ShelfQuery.Text

def IsDigits (cs : List Char) : Prop := ∀ c ∈ cs, c.isDigit = true

theorem isDigits_append {cs ds : List Char} (h : IsDigits cs) (h' : IsDigits ds) : IsDigits (cs ++ ds) :=
  fun c hc => (List.mem_append.mp hc).elim (h c) (h' c)

theorem isDigits_toDigits (n : Nat) : IsDigits (Nat.toDigits 10 n) :=
  fun _ hc => Nat.isDigit_of_mem_toDigits (by decide) (by decide) hc

theorem isDigits_zeros (count : Nat) : IsDigits (List.replicate count '0') := by
  intro c hc
  rw [List.eq_of_mem_replicate hc]
  rfl

theorem valueOf_eq (cs : List Char) : valueOf cs = Nat.ofDigitChars 10 cs 0 := by
  simp only [valueOf, Nat.ofDigitChars, Nat.mul_comm]

theorem valueOf_toDigits (n : Nat) : valueOf (Nat.toDigits 10 n) = n := by
  rw [valueOf_eq, Nat.ofDigitChars_ten_toDigits]

theorem toDigits_inj {m n : Nat} (h : Nat.toDigits 10 m = Nat.toDigits 10 n) : m = n := by
  rw [← valueOf_toDigits m, h, valueOf_toDigits]

theorem toList_negative {n : Int} (h : n < 0) : (toString n).toList = '-' :: Nat.toDigits 10 n.natAbs := by
  rw [Int.toString_eq_repr, Int.repr_eq_if, if_neg (by omega), show (-n).toNat = n.natAbs by omega,
    String.toList_append]
  exact congrArg ('-' :: ·) String.toList_ofList

theorem toList_natural {n : Int} (h : 0 ≤ n) : (toString n).toList = Nat.toDigits 10 n.natAbs := by
  rw [Int.toString_eq_repr, Int.repr_eq_if, if_pos h, show n.toNat = n.natAbs by omega]
  exact String.toList_ofList

theorem toString_inj {m n : Int} (h : toString m = toString n) : m = n := by
  have hdash {k l : Nat} : '-' :: Nat.toDigits 10 k ≠ Nat.toDigits 10 l := by
    intro heq
    exact absurd (isDigits_toDigits l '-' (heq ▸ List.mem_cons_self ..)) (by decide)
  have hlist := congrArg String.toList h
  rcases Int.lt_or_le m 0 with hm | hm <;> rcases Int.lt_or_le n 0 with hn | hn
  · rw [toList_negative hm, toList_negative hn] at hlist
    have habs := toDigits_inj (List.cons.inj hlist).2
    omega
  · rw [toList_negative hm, toList_natural hn] at hlist
    exact absurd hlist hdash
  · rw [toList_natural hm, toList_negative hn] at hlist
    exact absurd hlist.symm hdash
  · rw [toList_natural hm, toList_natural hn] at hlist
    have habs := toDigits_inj hlist
    omega

theorem valueOf_cons (c : Char) (cs : List Char) :
    valueOf (c :: cs) = 10 ^ cs.length * (c.toNat - '0'.toNat) + valueOf cs := by
  rw [valueOf_eq, valueOf_eq, Nat.ofDigitChars_cons, Nat.mul_zero, Nat.zero_add, Nat.ofDigitChars_eq_ofDigitChars_zero]

theorem valueOf_lt {cs : List Char} (h : IsDigits cs) : valueOf cs < 10 ^ cs.length := by
  induction cs with
  | nil => decide
  | cons c cs ih =>
    have hdigit : '0'.toNat ≤ c.toNat ∧ c.toNat ≤ '0'.toNat + 9 := isDigit_range (h c (by simp))
    have hrest := ih fun d hd => h d (by simp [hd])
    have hhead : 10 ^ cs.length * (c.toNat - '0'.toNat) ≤ 10 ^ cs.length * 9 := Nat.mul_le_mul_left _ (by omega)
    rw [valueOf_cons, List.length_cons, Nat.pow_succ]
    omega

theorem digitsValue?_eq {ds : List Char} (hds : IsDigits ds) (hne : ds ≠ []) : digitsValue? ds = some (valueOf ds) := by
  have hall : ds.all Char.isDigit = true := List.all_eq_true.mpr hds
  simp [digitsValue?, hne, hall, valueOf]

theorem trimStart_digits {ds : List Char} (hds : IsDigits ds) (hne : ds ≠ []) (rest : List Char) :
    trimStart (ds ++ rest) = ds ++ rest := by
  obtain ⟨c, ds, rfl⟩ := List.exists_cons_of_ne_nil hne
  exact trimStart_cons (isBlank_of_isDigit (hds c (by simp))) _

theorem padded_toList (width n : Nat) :
    (padded width n).toList = List.replicate (width - (Nat.toDigits 10 n).length) '0' ++ Nat.toDigits 10 n := by
  have hdigits : toString n = String.ofList (Nat.toDigits 10 n) := rfl
  simp [padded, zeros, fill, hdigits]

theorem isDigits_padded (width n : Nat) : IsDigits (padded width n).toList := by
  rw [padded_toList]
  exact isDigits_append (isDigits_zeros _) (isDigits_toDigits _)

theorem padded_ne_nil (width n : Nat) : (padded width n).toList ≠ [] := by
  simp [padded_toList, Nat.toDigits_ne_nil]

theorem valueOf_padded (width n : Nat) : valueOf (padded width n).toList = n := by
  rw [padded_toList, valueOf_eq, Nat.ofDigitChars_append, Nat.ofDigitChars_replicate_zero, Nat.mul_zero,
    Nat.ofDigitChars_ten_toDigits]

theorem length_padded {width n : Nat} (hwidth : 0 < width) (hn : n < 10 ^ width) :
    (padded width n).toList.length = width := by
  have hlength := (Nat.length_toDigits_le_iff (by decide) hwidth).mpr hn
  rw [padded_toList, List.length_append, List.length_replicate]
  omega

theorem padded_inj {width m n : Nat} (h : (padded width m).toList = (padded width n).toList) : m = n := by
  rw [← valueOf_padded width m, h, valueOf_padded]

theorem padded_append_inj {width m n : Nat} {u v : List Char} (hwidth : 0 < width) (hm : m < 10 ^ width)
    (hn : n < 10 ^ width) (h : (padded width m).toList ++ u = (padded width n).toList ++ v) : m = n ∧ u = v := by
  obtain ⟨hpadded, hrest⟩ := List.append_inj h ((length_padded hwidth hm).trans (length_padded hwidth hn).symm)
  exact ⟨padded_inj hpadded, hrest⟩

theorem digits_append_inj {ds es u v : List Char} {c : Char} (hds : IsDigits ds) (hes : IsDigits es)
    (hc : c.isDigit = false) (h : ds ++ c :: u = es ++ c :: v) : ds = es ∧ u = v := by
  induction ds generalizing es with
  | nil =>
    cases es with
    | nil => exact ⟨rfl, (List.cons.inj h).2⟩
    | cons e es =>
      obtain ⟨rfl, -⟩ := List.cons.inj h
      exact absurd (hes c (.head _)) (by simp [hc])
  | cons d ds ih =>
    cases es with
    | nil =>
      obtain ⟨rfl, -⟩ := List.cons.inj h
      exact absurd (hds d (.head _)) (by simp [hc])
    | cons e es =>
      obtain ⟨rfl, htail⟩ := List.cons.inj h
      obtain ⟨rfl, hrest⟩ := ih (fun x hx => hds x (.tail _ hx)) (fun x hx => hes x (.tail _ hx)) htail
      exact ⟨rfl, hrest⟩

theorem digits_append_ne {ds u v : List Char} {c : Char} (hds : IsDigits ds) (hne : ds ≠ []) (hc : c.isDigit = false) :
    ds ++ u ≠ c :: v := by
  intro h
  cases ds with
  | nil => exact hne rfl
  | cons d ds =>
    obtain ⟨rfl, -⟩ := List.cons.inj h
    exact absurd (hds d (.head _)) (by simp [hc])

theorem before_digits_append {ds es : List Char} (hds : IsDigits ds) (hes : IsDigits es)
    (hlength : ds.length = es.length) (u v : List Char) :
    before (ds ++ u) (es ++ v) = true ↔ valueOf ds < valueOf es ∨ valueOf ds = valueOf es ∧ before u v = true := by
  induction ds generalizing es with
  | nil =>
    obtain rfl := List.length_eq_zero_iff.mp hlength.symm
    simp
  | cons d ds ih =>
    cases es with
    | nil => cases hlength
    | cons e es =>
      have htails : ds.length = es.length := Nat.succ.inj hlength
      have hdtail : IsDigits ds := fun c hc => hds c (by simp [hc])
      have hetail : IsDigits es := fun c hc => hes c (by simp [hc])
      have hd : '0'.toNat ≤ d.toNat ∧ _ := isDigit_range (hds d (by simp))
      have he : '0'.toNat ≤ e.toNat ∧ _ := isDigit_range (hes e (by simp))
      have hdlt := valueOf_lt hdtail
      have helt := valueOf_lt hetail
      rw [List.cons_append, List.cons_append, valueOf_cons, valueOf_cons, ← htails]
      rw [← htails] at helt
      -- the digits after the first do not make up for one unit of it
      have hunit {m n : Nat} (hmn : m < n) : 10 ^ ds.length * m + 10 ^ ds.length ≤ 10 ^ ds.length * n := by
        rw [← Nat.mul_succ]
        exact Nat.mul_le_mul_left _ hmn
      rcases Nat.lt_trichotomy d.toNat e.toNat with hlt | heq | hgt
      · have hlead := hunit (show d.toNat - '0'.toNat < e.toNat - '0'.toNat by omega)
        exact iff_of_true (by simp [before, hlt]) (.inl (by omega))
      · obtain rfl := Char.toNat_inj.mp heq
        rw [before_cons_self, ih hdtail hetail htails, Nat.add_lt_add_iff_left, Nat.add_left_cancel_iff]
      · have hlead := hunit (show e.toNat - '0'.toNat < d.toNat - '0'.toNat by omega)
        have hne : d ≠ e := fun h => by simp [h] at hgt
        have hbefore : before (d :: (ds ++ u)) (e :: (es ++ v)) = false := by simp [before, hne, Nat.le_of_lt hgt]
        exact iff_of_false (by simp [hbefore]) (by omega)

theorem before_padded_append {width m n : Nat} (hwidth : 0 < width) (hm : m < 10 ^ width) (hn : n < 10 ^ width)
    (u v : List Char) :
    before ((padded width m).toList ++ u) ((padded width n).toList ++ v) = true ↔ m < n ∨ m = n ∧ before u v = true := by
  have hlength := (length_padded hwidth hm).trans (length_padded hwidth hn).symm
  rw [before_digits_append (isDigits_padded width m) (isDigits_padded width n) hlength, valueOf_padded, valueOf_padded]

theorem nullFree_nat (n : Nat) : NullFree (toString n) := by
  intro h
  rw [Nat.toString_eq_ofList_toDigits, String.toList_ofList] at h
  exact absurd (Nat.isDigit_of_mem_toDigits (by decide) (by decide) h) (by decide)

theorem nullFree_int (n : Int) : NullFree (toString n) := by
  cases n with
  | ofNat n => exact nullFree_nat n
  | negSucc n => exact nullFree_append.mpr ⟨by decide, nullFree_nat (n + 1)⟩

theorem nullFree_zeros (count : Nat) : NullFree (zeros count) := by
  simp [NullFree, zeros, fill]

theorem nullFree_positional (d : Decimal) : NullFree (positional d) := by
  have hdigits := nullFree_nat d.coefficient
  unfold positional
  dsimp only
  split
  · split
    · exact hdigits
    · exact nullFree_append.mpr ⟨hdigits, nullFree_zeros _⟩
  · split
    · refine nullFree_append.mpr ⟨nullFree_append.mpr ⟨fun h => ?_, by decide⟩, fun h => ?_⟩
      · rw [String.toList_ofList] at h
        exact hdigits (List.mem_of_mem_take h)
      · rw [String.toList_ofList] at h
        exact hdigits (List.mem_of_mem_drop h)
    · exact nullFree_append.mpr ⟨nullFree_append.mpr ⟨by decide, nullFree_zeros _⟩, hdigits⟩

theorem nullFree_plain (x : Float) : NullFree (plain x) := by
  have hsign (negative : Bool) : NullFree (signText negative) := by cases negative <;> decide
  unfold plain
  split
  · exact nullFree_append.mpr ⟨hsign _, nullFree_positional _⟩
  · exact nullFree_append.mpr ⟨hsign _, by decide⟩
  · decide

end ShelfQuery.Number
