import ShelfQuery.Proofs.Calendar.RoundTrip

set_option autoImplicit false

namespace ShelfQuery.Calendar

open ShelfQuery.Number ShelfQuery.Text

variable {cs rest : List Char} {f f' : Fields} {pattern : List Piece} {d : Date}

/-- The date that a text is, in one of the written forms and with nothing but blanks around it. -/
def dateOnly? (text : String) : Option Date :=
  datePatterns.findSome? fun pattern => Date.ofPattern? pattern (trim text.toList)

def Piece.Takes : Piece → List Char → Prop
  | .mark c, used => used = [c]
  | .gap, used => ∀ c ∈ used, isBlank c = true
  | .number _, used => (∀ c ∈ used, isBlank c = true ∨ Opens c) ∧ ∃ c ∈ used, c.isDigit = true
  | .fraction, used => ∀ c ∈ used, c.isDigit = true ∨ c = '.'

theorem readNumber_takes {limit n : Nat} (h : readNumber limit cs = some (n, rest)) :
    ∃ ds, cs = ds ++ rest ∧ IsDigits ds ∧ ds ≠ [] := by
  obtain ⟨value, hvalue, heq⟩ := Option.map_eq_some_iff.mp h
  obtain ⟨tail, htail⟩ := (List.takeWhile_prefix Char.isDigit).trans (List.take_prefix limit cs)
  generalize (cs.take limit).takeWhile Char.isDigit = ds at *
  obtain rfl : cs.drop ds.length = rest := congrArg Prod.snd heq
  have hds : (ds.isEmpty || !ds.all Char.isDigit) = false := by
    unfold digitsValue? at hvalue
    split at hvalue
    · cases hvalue
    · next hds => exact Bool.eq_false_iff.mpr hds
  simp only [Bool.or_eq_false_iff, Bool.not_eq_false', List.all_eq_true, List.isEmpty_eq_false_iff] at hds
  refine ⟨ds, ?_, hds.2, hds.1⟩
  rw [← htail, List.drop_left]

theorem readYear_takes {y : Int} (h : readYear cs = some (y, rest)) :
    ∃ used, cs = used ++ rest ∧ (∀ c ∈ used, Opens c) ∧ ∃ c ∈ used, c.isDigit = true := by
  have hdigits {limit n : Nat} {cs rest : List Char} (h : readNumber limit cs = some (n, rest)) :
      ∃ used, cs = used ++ rest ∧ (∀ c ∈ used, Opens c) ∧ ∃ c ∈ used, c.isDigit = true := by
    obtain ⟨ds, hcs, hds, hne⟩ := readNumber_takes h
    obtain ⟨c, hc⟩ := List.exists_mem_of_ne_nil ds hne
    exact ⟨ds, hcs, fun c hc => .inl (hds c hc), c, hc, hds c hc⟩
  have hsigned {limit n : Nat} {cs rest : List Char} (sign : Char) (hsign : Opens sign)
      (h : readNumber limit cs = some (n, rest)) :
      ∃ used, sign :: cs = used ++ rest ∧ (∀ c ∈ used, Opens c) ∧ ∃ c ∈ used, c.isDigit = true := by
    obtain ⟨used, rfl, hopens, c, hc, hdigit⟩ := hdigits h
    exact ⟨sign :: used, rfl, List.forall_mem_cons.mpr ⟨hsign, hopens⟩, c, List.mem_cons_of_mem _ hc, hdigit⟩
  unfold readYear at h
  split at h <;> obtain ⟨⟨n, rest⟩, hnumber, heq⟩ := Option.map_eq_some_iff.mp h <;> cases heq
  · exact hsigned '-' (.inr (.inl rfl)) hnumber
  · exact hsigned '+' (.inr (.inr rfl)) hnumber
  · exact hdigits hnumber

theorem readPiece_takes {piece : Piece}
    (h : readPiece f piece cs = some (f', rest)) : ∃ used, cs = used ++ rest ∧ piece.Takes used := by
  have hblanks : cs = cs.takeWhile isBlank ++ trimStart cs := List.takeWhile_append_dropWhile.symm
  have hblank : ∀ c ∈ cs.takeWhile isBlank, isBlank c = true := fun c hc => List.mem_takeWhile_imp hc
  have hnumber {unit : DateUnit} {used : List Char} (htrim : trimStart cs = used ++ rest)
      (hopens : ∀ c ∈ used, Opens c) (hdigit : ∃ c ∈ used, c.isDigit = true) :
      ∃ used, cs = used ++ rest ∧ (Piece.number unit).Takes used := by
    refine ⟨cs.takeWhile isBlank ++ used, ?_, ?_, ?_⟩
    · rw [List.append_assoc, ← htrim]
      exact hblanks
    · intro c hc
      exact (List.mem_append.mp hc).imp (hblank c) (hopens c)
    · obtain ⟨c, hc, hdigit⟩ := hdigit
      exact ⟨c, List.mem_append_right _ hc, hdigit⟩
  unfold readPiece at h
  split at h
  · split at h
    · split at h
      · next heq =>
        cases h
        exact ⟨[_], rfl, congrArg (fun c => [c]) heq.symm⟩
      · cases h
    · cases h
  · cases h
    exact ⟨_, hblanks, hblank⟩
  · split at h
    · next tail =>
      dsimp only at h
      split at h
      · cases h
      · cases h
        refine ⟨'.' :: tail.takeWhile Char.isDigit, ?_, ?_⟩
        · obtain ⟨last, hlast⟩ := List.takeWhile_prefix (l := tail) Char.isDigit
          generalize tail.takeWhile Char.isDigit = ds at *
          rw [← hlast, List.drop_left, List.cons_append]
        · exact List.forall_mem_cons.mpr ⟨.inr rfl, fun c hc => .inl (List.mem_takeWhile_imp hc)⟩
    · cases h
      exact ⟨[], rfl, by simp [Piece.Takes]⟩
  · obtain ⟨⟨y, rest⟩, hyear, heq⟩ := Option.map_eq_some_iff.mp h
    cases heq
    obtain ⟨used, htrim, hopens, hdigit⟩ := readYear_takes hyear
    exact hnumber htrim hopens hdigit
  · obtain ⟨⟨n, rest⟩, hread, heq⟩ := Option.map_eq_some_iff.mp h
    cases heq
    obtain ⟨ds, htrim, hds, hne⟩ := readNumber_takes hread
    obtain ⟨c, hc⟩ := List.exists_mem_of_ne_nil ds hne
    exact hnumber htrim (fun c hc => .inl (hds c hc)) ⟨c, hc, hds c hc⟩

theorem exists_piece_of_mem {pieces : List Piece} (h : readPattern pieces f cs = some f')
    {c : Char} (hc : c ∈ cs) : ∃ piece ∈ pieces, ∃ used, piece.Takes used ∧ c ∈ used := by
  induction pieces generalizing f cs with
  | nil =>
    rw [readPattern] at h
    split at h
    · next hempty =>
      rw [List.isEmpty_iff.mp hempty] at hc
      cases hc
    · cases h
  | cons piece pieces ih =>
    rw [readPattern] at h
    split at h
    · next hpiece =>
      obtain ⟨used, rfl, htakes⟩ := readPiece_takes hpiece
      rcases List.mem_append.mp hc with hused | hrest
      · exact ⟨piece, by simp, used, htakes, hused⟩
      · obtain ⟨piece', hmem, htaken⟩ := ih h hrest
        exact ⟨piece', List.mem_cons_of_mem _ hmem, htaken⟩
    · cases h

theorem exists_taken_of_mem {pieces : List Piece} (h : readPattern pieces f cs = some f')
    {piece : Piece} (hpiece : piece ∈ pieces) : ∃ used, piece.Takes used ∧ used ⊆ cs := by
  induction pieces generalizing f cs with
  | nil => cases hpiece
  | cons first pieces ih =>
    rw [readPattern] at h
    split at h
    · next hfirst =>
      obtain ⟨used, rfl, htakes⟩ := readPiece_takes hfirst
      rcases List.mem_cons.mp hpiece with rfl | hmem
      · exact ⟨used, htakes, List.subset_append_left _ _⟩
      · obtain ⟨used', htaken, hsub⟩ := ih h hmem
        exact ⟨used', htaken, List.Subset.trans hsub (List.subset_append_right _ _)⟩
    · cases h

theorem colon_mem_of_ofPattern? {m : DateTime} (hpattern : pattern ∈ dateTimePatterns)
    (h : DateTime.ofPattern? pattern cs = some m) : ':' ∈ cs := by
  have hmark : Piece.mark ':' ∈ pattern := by
    simp only [dateTimePatterns, List.mem_cons, List.not_mem_nil, or_false] at hpattern
    rcases hpattern with rfl | rfl | rfl | rfl <;> simp [longTime, shortTime]
  obtain ⟨f, hread, -⟩ := Option.bind_eq_some_iff.mp h
  obtain ⟨used, rfl, hsub⟩ := exists_taken_of_mem hread hmark
  exact hsub (by simp)

/-- A date is written in digits, signs, dashes, slashes and blanks. -/
theorem colon_not_mem_of_ofPattern? (hpattern : pattern ∈ datePatterns)
    (h : Date.ofPattern? pattern cs = some d) : ':' ∉ cs := by
  intro hmem
  obtain ⟨f, hread, -⟩ := Option.bind_eq_some_iff.mp h
  obtain ⟨piece, hpiece, used, htakes, hused⟩ := exists_piece_of_mem hread hmem
  have hkind : (∃ unit, piece = .number unit) ∨ piece = .mark '-' ∨ piece = .mark '/' := by
    simp only [datePatterns, dashedDate, monthFirstDate, slashedDate, List.mem_cons, List.not_mem_nil, or_false] at hpattern
    rcases hpattern with rfl | rfl | rfl <;> simp only [List.mem_cons, List.not_mem_nil, or_false] at hpiece <;>
      rcases hpiece with rfl | rfl | rfl | rfl | rfl <;> simp
  rcases hkind with ⟨unit, rfl⟩ | rfl | rfl
  · rcases htakes.1 ':' hused with hblank | hopens
    · exact absurd hblank (by decide)
    · exact absurd hopens (by decide)
  · rw [show used = ['-'] from htakes] at hused
    simp at hused
  · rw [show used = ['/'] from htakes] at hused
    simp at hused

theorem exists_isDigit_of_ofPattern? (hpattern : pattern ∈ datePatterns)
    (h : Date.ofPattern? pattern cs = some d) : ∃ c ∈ cs, c.isDigit = true := by
  have hyear : Piece.number .year ∈ pattern := by
    simp only [datePatterns, List.mem_cons, List.not_mem_nil, or_false] at hpattern
    rcases hpattern with rfl | rfl | rfl <;> simp [dashedDate, monthFirstDate, slashedDate]
  obtain ⟨f, hread, -⟩ := Option.bind_eq_some_iff.mp h
  obtain ⟨used, ⟨-, c, hc, hdigit⟩, hsub⟩ := exists_taken_of_mem hread hyear
  exact ⟨c, hsub hc, hdigit⟩

theorem readMoment_dateOnly {text : String} (h : dateOnly? text = some d) (now : DateTime) :
    readMoment text now = .ok (.startOfDay d) := by
  obtain ⟨pattern, hpattern, hread⟩ := List.exists_of_findSome?_eq_some h
  have hcolon := colon_not_mem_of_ofPattern? hpattern hread
  obtain ⟨c, hc, hdigit⟩ := exists_isDigit_of_ofPattern? hpattern hread
  have hnone : (dateTimePatterns.findSome? fun pattern => DateTime.ofPattern? pattern (trim text.toList)) = none := by
    refine List.findSome?_eq_none_iff.mpr fun pattern hpattern => ?_
    exact Option.eq_none_iff_forall_ne_some.mpr fun m hm => hcolon (colon_mem_of_ofPattern? hpattern hm)
  have habsolute : absolute? (trim text.toList) = some (.startOfDay d) := by
    rw [absolute?, hnone]
    exact congrArg (Option.map DateTime.startOfDay) h
  have hword {word : String} (hletters : word.toList.all (fun w => !w.isDigit) = true) :
      String.ofList ((trim text.toList).map lowerAscii) ≠ word := by
    rintro rfl
    have hmem : c ∈ (String.ofList ((trim text.toList).map lowerAscii)).toList := by
      rw [String.toList_ofList]
      exact List.mem_map.mpr ⟨c, hc, Opens.lowerAscii_eq (.inl hdigit)⟩
    simpa [hdigit] using List.all_eq_true.mp hletters c hmem
  dsimp only [readMoment]
  split
  · next heq => exact absurd heq (hword (by simp))
  · next heq => exact absurd heq (hword (by simp))
  · next heq => exact absurd heq (hword (by simp))
  · next heq => exact absurd heq (hword (by simp))
  · rw [habsolute]

end ShelfQuery.Calendar
