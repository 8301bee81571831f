import ShelfQuery.Text.Words

set_option autoImplicit false

namespace ShelfQuery.Text

theorem before_cons_self (c : Char) (u v : List Char) : before (c :: u) (c :: v) = before u v := by
  simp [before]

theorem before_asymm {a b : List Char} (h : before a b = true) : before b a = false := by
  induction a generalizing b with
  | nil => cases b <;> rfl
  | cons x a ih =>
    cases b with
    | nil => exact nomatch h
    | cons y b =>
      simp only [before, Bool.or_eq_true, decide_eq_true_eq, Bool.and_eq_true, beq_iff_eq] at h
      rcases h with h | ⟨rfl, h⟩
      · have hne : y ≠ x := by
          rintro rfl
          exact Nat.lt_irrefl _ h
        simp [before, hne, Nat.le_of_lt h]
      · simp [before, ih h]

theorem before_of_not {a b : List Char} (h : before a b = false) (hne : a ≠ b) : before b a = true := by
  induction a generalizing b with
  | nil =>
    cases b with
    | nil => exact absurd rfl hne
    | cons => exact nomatch h
  | cons x a ih =>
    cases b with
    | nil => rfl
    | cons y b =>
      simp only [before, Bool.or_eq_false_iff, decide_eq_false_iff_not, Nat.not_lt] at h
      by_cases hxy : x = y
      · subst hxy
        have htail : a ≠ b := fun heq => hne (heq ▸ rfl)
        have hbefore : before a b = false := by simpa using h.2
        simp [before, ih hbefore htail]
      · have hlt : y.toNat < x.toNat :=
          Nat.lt_of_le_of_ne h.1 fun heq => hxy (Char.ext (UInt32.toNat_inj.mp heq.symm))
        simp [before, hlt]

theorem before_append_left (a u v : List Char) : before (a ++ u) (a ++ v) = before u v := by
  induction a with
  | nil => rfl
  | cons c a ih => simp [before, ih]

theorem before_append {a b : List Char} (hab : ¬ a <+: b) (hba : ¬ b <+: a) (u v : List Char) :
    before (a ++ u) (b ++ v) = before a b := by
  induction a generalizing b with
  | nil => exact absurd List.nil_prefix hab
  | cons x a ih =>
    cases b with
    | nil => exact absurd List.nil_prefix hba
    | cons y b =>
      by_cases hxy : x = y
      · subst hxy
        rw [List.cons_prefix_cons] at hab hba
        simp [before, ih (fun h => hab ⟨rfl, h⟩) (fun h => hba ⟨rfl, h⟩)]
      · simp [before, beq_eq_false_iff_ne.mpr hxy]

theorem before_append_self (a u : List Char) : before (a ++ u) a = false := by
  induction a with
  | nil => cases u <;> rfl
  | cons x a ih => simp [before, ih]

end ShelfQuery.Text
