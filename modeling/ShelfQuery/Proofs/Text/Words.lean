import ShelfQuery.Text.Words

set_option autoImplicit false

namespace ShelfQuery.Text

variable {c : Char} {cs used rest : List Char}

theorem isDigit_range {c : Char} (h : c.isDigit = true) : 48 ≤ c.toNat ∧ c.toNat ≤ 57 := by
  simpa [Char.isDigit, UInt32.le_iff_toNat_le] using h

theorem lowerAscii_of_lt {c : Char} (h : c.toNat < 65) : lowerAscii c = c := by
  refine if_neg fun hupper => ?_
  have hle : 65 ≤ c.toNat := UInt32.le_iff_toNat_le.mp (of_decide_eq_true hupper).1
  omega

theorem not_isAlpha_of_isDigit (h : c.isDigit = true) : c.isAlpha = false := by
  have hrange := isDigit_range h
  have hupper : ¬ (c.val ≥ 'A'.val ∧ c.val ≤ 'Z'.val) := by
    intro hin
    have hle : 65 ≤ c.toNat := UInt32.le_iff_toNat_le.mp hin.1
    omega
  have hlower : ¬ c.val ≥ 'a'.val := by
    intro hin
    have hle : 97 ≤ c.toNat := UInt32.le_iff_toNat_le.mp hin
    omega
  change (decide _ || (decide _ && _)) = false
  rw [decide_eq_false hupper, decide_eq_false hlower]
  rfl

theorem toNat_lt_of_isAlpha (h : c.isAlpha = true) : c.toNat < 128 := by
  have hcases : (c.isUpper || c.isLower) = true := h
  rcases Bool.or_eq_true_iff.mp hcases with hupper | hlower
  · have hle : c.toNat ≤ 90 := UInt32.le_iff_toNat_le.mp (of_decide_eq_true hupper).2
    omega
  · have hrange : (decide (c.val ≥ 'a'.val) && decide (c.val ≤ 'z'.val)) = true := hlower
    have hle : c.toNat ≤ 122 := UInt32.le_iff_toNat_le.mp (of_decide_eq_true (Bool.and_eq_true_iff.mp hrange).2)
    omega

theorem not_isAlphabetic_of_isDigit (h : c.isDigit = true) : isAlphabetic c = false := by
  have hrange := isDigit_range h
  have hsmall : c.toNat < 128 := by omega
  rw [isAlphabetic, if_pos hsmall, not_isAlpha_of_isDigit h]

theorem isBlank_of_isDigit {c : Char} (h : c.isDigit = true) : isBlank c = false := by
  have hrange := isDigit_range h
  unfold isBlank
  grind

theorem ne_of_isDigit {c d : Char} (hc : c.isDigit = true) (hd : d.isDigit = false) : c ≠ d := by
  rintro rfl
  rw [hc] at hd
  cases hd

theorem not_mem_of_class {l : List Char} (p : Char → Bool) (hp : l.all (fun c => !p c) = true)
    (hc : p c = true) : c ∉ l := by
  intro hmem
  have hfalse := List.all_eq_true.mp hp c hmem
  simp [hc] at hfalse

def Stops (p : Char → Bool) (next : Option Char) : Prop := next.all (fun c => !p c) = true

theorem span_eq {p : Char → Bool} (hused : ∀ c ∈ used, p c = true) (hrest : Stops p rest.head?) :
    (used ++ rest).takeWhile p = used ∧ (used ++ rest).dropWhile p = rest := by
  rw [List.takeWhile_append_of_pos hused, List.dropWhile_append_of_pos hused]
  cases rest with
  | nil => simp
  | cons c rest =>
    have hc : p c = false := by simpa [Stops] using hrest
    simp [hc]

theorem stops_dropWhile (p : Char → Bool) (cs : List Char) : Stops p (cs.dropWhile p).head? := by
  induction cs with
  | nil => rfl
  | cons c cs ih =>
    rw [List.dropWhile_cons]
    split
    · exact ih
    · next hc => simpa [Stops] using hc

theorem stops_of_ne {stopped cs : List Char} (h : ∀ c ∈ stopped, ∀ rest, cs ≠ c :: rest) :
    Stops stopped.contains cs.head? := by
  cases cs with
  | nil => rfl
  | cons d cs =>
    have hd : d ∉ stopped := fun hd => h d hd cs rfl
    simpa [Stops] using hd

theorem forall_takeWhile (p : Char → Bool) (cs : List Char) : ∀ c ∈ cs.takeWhile p, p c = true :=
  List.all_eq_true.mp List.all_takeWhile

theorem exists_span (p : Char → Bool) (cs : List Char) :
    ∃ used rest, cs = used ++ rest ∧ (∀ c ∈ used, p c = true) ∧ Stops p rest.head? :=
  ⟨cs.takeWhile p, cs.dropWhile p, List.takeWhile_append_dropWhile.symm, forall_takeWhile p cs, stops_dropWhile p cs⟩

theorem drop_takeWhile_length (p : Char → Bool) (cs : List Char) :
    cs.drop (cs.takeWhile p).length = cs.dropWhile p := by
  induction cs with
  | nil => rfl
  | cons c cs ih =>
    rw [List.takeWhile_cons, List.dropWhile_cons]
    split <;> simp [ih]

theorem mem_dropWhile_of_not {p : Char → Bool} (hc : c ∈ cs) (hp : p c = false) : c ∈ cs.dropWhile p := by
  induction cs with
  | nil => exact hc
  | cons d cs ih =>
    rw [List.dropWhile_cons]
    split
    · next hd =>
      rcases List.mem_cons.mp hc with rfl | hc
      · exact nomatch hp.symm.trans hd
      · exact ih hc
    · exact hc

theorem trimStart_cons {c : Char} (h : isBlank c = false) (cs : List Char) : trimStart (c :: cs) = c :: cs := by
  rw [trimStart, List.dropWhile_cons, h, if_neg Bool.false_ne_true]

theorem trim_of_ends {cs : List Char} (hfirst : ∀ c ∈ cs.head?, isBlank c = false)
    (hlast : ∀ c ∈ cs.getLast?, isBlank c = false) : trim cs = cs := by
  have hkeep {cs : List Char} (h : ∀ c ∈ cs.head?, isBlank c = false) : cs.dropWhile isBlank = cs := by
    cases cs with
    | nil => rfl
    | cons c cs => exact trimStart_cons (h c rfl) cs
  rw [trim, trimStart, trimEnd, hkeep hfirst, hkeep (by simpa using hlast), List.reverse_reverse]

theorem mem_trim_of_not_isBlank {raw : List Char} (hc : c ∈ raw) (hblank : isBlank c = false) : c ∈ trim raw := by
  have hstart : c ∈ trimStart raw := mem_dropWhile_of_not hc hblank
  exact List.mem_reverse.mpr (mem_dropWhile_of_not (List.mem_reverse.mpr hstart) hblank)

theorem trim_eq_self (h : ∀ c ∈ cs, isBlank c = false) : trim cs = cs :=
  trim_of_ends (fun c hc => h c (List.mem_of_mem_head? hc)) fun c hc => h c (List.mem_of_mem_getLast? hc)

def NullFree (s : String) : Prop := '\x00' ∉ s.toList

instance (s : String) : Decidable (NullFree s) := inferInstanceAs (Decidable ('\x00' ∉ s.toList))

theorem nullFree_append {s t : String} : NullFree (s ++ t) ↔ NullFree s ∧ NullFree t := by
  simp [NullFree]

section

variable {part text other : String}

def Occurs (part text : String) : Prop := ∃ before after, text = before ++ part ++ after

theorem Occurs.refl (text : String) : Occurs text text := ⟨"", "", by simp⟩

theorem Occurs.trans (h : Occurs part text) (h' : Occurs text other) : Occurs part other := by
  obtain ⟨before, after, rfl⟩ := h
  obtain ⟨before', after', rfl⟩ := h'
  exact ⟨before' ++ before, after ++ after', by simp [String.append_assoc]⟩

theorem Occurs.left (h : Occurs part text) (rest : String) : Occurs part (text ++ rest) := by
  obtain ⟨before, after, rfl⟩ := h
  exact ⟨before, after ++ rest, by simp [String.append_assoc]⟩

theorem Occurs.right (lead : String) (h : Occurs part text) : Occurs part (lead ++ text) := by
  obtain ⟨before, after, rfl⟩ := h
  exact ⟨lead ++ before, after, by simp [String.append_assoc]⟩

theorem occurs_join {parts : List String} (sep : String) (h : part ∈ parts) : Occurs part (join sep parts) := by
  fun_induction join sep parts with
  | case1 => exact nomatch h
  | case2 s =>
    rw [List.mem_singleton.mp h]
    exact .refl s
  | case3 s rest _ ih =>
    rcases List.mem_cons.mp h with rfl | h
    · exact .left (.left (.refl _) _) _
    · exact .right _ (ih h)

end

end ShelfQuery.Text
