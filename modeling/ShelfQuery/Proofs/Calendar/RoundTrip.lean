import Mathlib.Data.List.Basic
import Mathlib.Data.List.TakeWhile
import ShelfQuery.Calendar.Relative
import ShelfQuery.Proofs.Calendar.DateText
import ShelfQuery.Proofs.Calendar.DayCount

set_option autoImplicit false

namespace ShelfQuery.Calendar

open ShelfQuery.Number ShelfQuery.Text

variable {c : Char} {n hour minute second nano : Nat} {cs : List Char} {t : Time} {now : DateTime}

theorem readNumber_append {ds rest : List Char} {limit : Nat} (hds : IsDigits ds) (hne : ds ≠ [])
    (hlimit : ds.length ≤ limit) (hstop : ds.length = limit ∨ ∀ c ∈ rest.head?, c.isDigit = false) :
    readNumber limit (ds ++ rest) = some (valueOf ds, rest) := by
  have htake : ((ds ++ rest).take limit).takeWhile Char.isDigit = ds := by
    rw [List.take_append, List.take_of_length_le hlimit, List.takeWhile_append_of_pos hds]
    rcases hstop with heq | hstop
    · simp [heq]
    · cases rest with
      | nil => simp
      | cons c rest =>
        have hc := hstop c rfl
        cases limit - ds.length with
        | zero => simp
        | succ k => simp [hc]
  simp [readNumber, htake, digitsValue?_eq hds hne]

theorem readYear_yearText (y : Int) (rest : List Char) :
    readYear ((yearText y).toList ++ '-' :: rest) = some (y, '-' :: rest) := by
  have hds := isDigits_padded 4 y.natAbs
  have hne := padded_ne_nil 4 y.natAbs
  have hstop : ∀ c ∈ ('-' :: rest).head?, c.isDigit = false := by
    intro c hc
    cases hc
    rfl
  have hsigned : readNumber ((padded 4 y.natAbs).toList ++ '-' :: rest).length
      ((padded 4 y.natAbs).toList ++ '-' :: rest) = some (y.natAbs, '-' :: rest) := by
    rw [readNumber_append hds hne (by simp) (.inr hstop), valueOf_padded]
  rcases yearText_cases y with ⟨hy, hd⟩ | ⟨hy, hd⟩ | ⟨hy, hy9, hd⟩ <;> rw [hd]
  · rw [List.cons_append, readYear, hsigned]
    simp only [Option.map_some, Option.some.injEq, Prod.mk.injEq, and_true]
    omega
  · rw [List.cons_append, readYear, hsigned]
    simp only [Option.map_some, Option.some.injEq, Prod.mk.injEq, and_true]
    omega
  · have hplain : readNumber 4 ((padded 4 y.natAbs).toList ++ '-' :: rest) = some (y.natAbs, '-' :: rest) := by
      have hlength : (padded 4 y.natAbs).toList.length = 4 := length_padded (by decide) (by omega)
      rw [readNumber_append hds hne (Nat.le_of_eq hlength) (.inl hlength), valueOf_padded]
    rw [readYear]
    · rw [hplain]
      simp only [Option.map_some, Option.some.injEq, Prod.mk.injEq, and_true]
      omega
    · exact fun _ => digits_append_ne hds hne (by decide)
    · exact fun _ => digits_append_ne hds hne (by decide)

def Opens (c : Char) : Prop := c.isDigit = true ∨ c = '-' ∨ c = '+'

instance (c : Char) : Decidable (Opens c) := inferInstanceAs (Decidable (c.isDigit = true ∨ c = '-' ∨ c = '+'))

theorem Opens.lowerAscii_eq (h : Opens c) : lowerAscii c = c := by
  rcases h with h | rfl | rfl
  · have hrange := isDigit_range h
    exact lowerAscii_of_lt (by omega)
  · rfl
  · rfl

theorem Opens.isBlank (h : Opens c) : isBlank c = false := by
  rcases h with h | rfl | rfl
  · exact isBlank_of_isDigit h
  · rfl
  · rfl

theorem exists_yearText_eq_cons (y : Int) : ∃ c cs, (yearText y).toList = c :: cs ∧ Opens c := by
  rcases yearText_cases y with ⟨-, hd⟩ | ⟨-, hd⟩ | ⟨-, -, hd⟩
  · exact ⟨_, _, hd, .inr (.inl rfl)⟩
  · exact ⟨_, _, hd, .inr (.inr rfl)⟩
  · obtain ⟨c, cs, hcs⟩ := List.exists_cons_of_ne_nil (padded_ne_nil 4 y.natAbs)
    exact ⟨c, cs, hd.trans hcs, .inl (isDigits_padded 4 y.natAbs c (by simp [hcs]))⟩

theorem readPiece_year (f : Fields) (y : Int) (rest : List Char) :
    readPiece f (.number .year) ((yearText y).toList ++ '-' :: rest) = some ({ f with year := y }, '-' :: rest) := by
  have htrim : trimStart ((yearText y).toList ++ '-' :: rest) = (yearText y).toList ++ '-' :: rest := by
    obtain ⟨c, cs, hcs, hopens⟩ := exists_yearText_eq_cons y
    rw [hcs]
    exact trimStart_cons hopens.isBlank _
  simp [readPiece, htrim, readYear_yearText]

theorem readPiece_number (f : Fields) (unit : DateUnit) (hunit : unit ≠ .year) (hn : n < 10 ^ 2) (rest : List Char) :
    readPiece f (.number unit) ((padded 2 n).toList ++ rest) = some (f.set unit n, rest) := by
  have hds := isDigits_padded 2 n
  have hne := padded_ne_nil 2 n
  have hlength : (padded 2 n).toList.length = 2 := length_padded (by decide) hn
  have hread : readNumber 2 (trimStart ((padded 2 n).toList ++ rest)) = some (n, rest) := by
    rw [trimStart_digits hds hne, readNumber_append hds hne (Nat.le_of_eq hlength) (.inl hlength), valueOf_padded]
  rw [readPiece]
  · rw [hread]
    rfl
  · exact hunit

theorem nanosOf_padded (hn : n < 10 ^ 6) : nanosOf (padded 6 n).toList = n * 1000 := by
  have hlength : (padded 6 n).toList.length = 6 := length_padded (by decide) hn
  have htake : (padded 6 n).toList.take 9 = (padded 6 n).toList := List.take_of_length_le (by omega)
  have hvalue := valueOf_padded 6 n
  rw [valueOf] at hvalue
  simp only [nanosOf, htake, hvalue, hlength]

theorem readPiece_fraction (f : Fields) (hn : n < 10 ^ 6) :
    readPiece f .fraction ('.' :: (padded 6 n).toList) = some ({ f with nano := n * 1000 }, []) := by
  have hdigits : (padded 6 n).toList.takeWhile Char.isDigit = (padded 6 n).toList :=
    List.takeWhile_eq_self_iff.mpr (isDigits_padded 6 n)
  have hne : (padded 6 n).toList.isEmpty = false := List.isEmpty_eq_false_iff.mpr (padded_ne_nil 6 n)
  simp only [readPiece, hdigits, hne, nanosOf_padded hn, List.drop_length]
  rfl

theorem readPattern_cons {f f' : Fields} {piece : Piece} {cs rest : List Char} (h : readPiece f piece cs = some (f', rest))
    (pieces : List Piece) : readPattern (piece :: pieces) f cs = readPattern pieces f' rest := by
  rw [readPattern, h]

theorem readPattern_mark (c : Char) (pieces : List Piece) (f : Fields) (rest : List Char) :
    readPattern (.mark c :: pieces) f (c :: rest) = readPattern pieces f rest := by
  have hread : readPiece f (.mark c) (c :: rest) = some (f, rest) := if_pos rfl
  exact readPattern_cons hread pieces

def Date.fields (d : Date) : Fields := { year := d.year, month := d.month, day := d.day }

theorem readPattern_date (d : Date) (pieces : List Piece) (rest : List Char) :
    readPattern (dashedDate ++ pieces) {} (d.text.toList ++ rest) = readPattern pieces d.fields rest := by
  have hdash : "-".toList = ['-'] := by simp
  simp only [Date.text, dashedDate, String.toList_append, List.append_assoc, hdash, List.cons_append, List.nil_append]
  rw [readPattern_cons (readPiece_year _ _ _), readPattern_mark,
    readPattern_cons (readPiece_number _ .month (by simp) d.month_lt _), readPattern_mark,
    readPattern_cons (readPiece_number _ .day (by simp) d.day_lt _)]
  rfl

def DateTime.fields (m : DateTime) : Fields :=
  { m.date.fields with
    hour := m.time.second / 3600
    minute := m.time.second / 60 % 60
    second := m.time.second % 60 + m.time.nano / nanosPerSecond
    nano := m.time.nano % nanosPerSecond / 1000 * 1000 }

theorem readPattern_time (m : DateTime) : readPattern longTime m.date.fields m.time.text.toList = some m.fields := by
  have hcolon : ":".toList = [':'] := by simp
  have hpoint : ".".toList = ['.'] := by simp
  have hsecond := m.time.second_lt
  have hnano := m.time.nano_lt
  rw [secondsPerDay] at hsecond
  rw [nanosPerSecond] at hnano
  have hleap : m.time.second % 60 + m.time.nano / nanosPerSecond < 10 ^ 2 := by
    rw [nanosPerSecond]
    omega
  simp only [Time.text, longTime, shortTime, String.toList_append, List.append_assoc, hcolon, List.cons_append,
    List.nil_append]
  rw [readPattern_cons (readPiece_number _ .hour (by simp) (by omega) _), readPattern_mark,
    readPattern_cons (readPiece_number _ .minute (by simp) (by omega) _), readPattern_mark,
    readPattern_cons (readPiece_number _ .second (by simp) hleap _)]
  split
  · next hzero =>
    have hread (f : Fields) : readPiece f .fraction "".toList = some (f, []) := rfl
    rw [readPattern_cons (hread _), DateTime.fields, hzero]
    rfl
  · have hmicros : m.time.nano % nanosPerSecond / 1000 < 10 ^ 6 := by
      rw [nanosPerSecond]
      omega
    rw [String.toList_append, hpoint, List.singleton_append, readPattern_cons (readPiece_fraction _ hmicros)]
    rfl

namespace Time

/-- Nanoseconds from one thousand million up are found in the last second of a minute only. -/
def OnClock (t : Time) : Prop := t.nano < nanosPerSecond ∨ t.second % 60 = 59

/-- The time without what it holds below a microsecond. -/
def toMicros (t : Time) : Time :=
  ⟨t.second, t.nano / 1000 * 1000, t.second_lt, Nat.lt_of_le_of_lt (Nat.div_mul_le_self _ _) t.nano_lt⟩

theorem toMicros_eq_self (h : t.nano % 1000 = 0) : t.toMicros = t := by
  obtain ⟨second, nano, second_lt, nano_lt⟩ := t
  simp only [toMicros, mk.injEq, true_and]
  exact Nat.div_mul_cancel (Nat.dvd_of_mod_eq_zero h)

theorem parts_lt (h : hour < 24 ∧ minute < 60 ∧ second ≤ 60 ∧ nano < nanosPerSecond) :
    hour * 3600 + minute * 60 + min second 59 < secondsPerDay ∧
      nano + (if second = 60 then nanosPerSecond else 0) < 2 * nanosPerSecond := by
  have hextra : (if second = 60 then nanosPerSecond else 0) ≤ nanosPerSecond := by split <;> simp
  rw [secondsPerDay]
  omega

theorem of?_eq_some_iff : of? hour minute second nano = some t ↔
      (hour < 24 ∧ minute < 60 ∧ second ≤ 60 ∧ nano < nanosPerSecond) ∧
      t.second = hour * 3600 + minute * 60 + min second 59 ∧
      t.nano = nano + if second = 60 then nanosPerSecond else 0 := by
  obtain ⟨s, n, hs, hn⟩ := t
  unfold of?
  split
  · next hparts =>
    simp only [dif_pos (parts_lt hparts), Option.some.injEq, mk.injEq, hparts, and_self, true_and]
    exact and_congr eq_comm eq_comm
  · next hparts => simp [hparts]

theorem onClock_of? (h : of? hour minute second nano = some t) : t.OnClock := by
  obtain ⟨hparts, hsecond, hnano⟩ := of?_eq_some_iff.mp h
  by_cases hleap : second = 60
  · right
    omega
  · left
    rw [hnano, if_neg hleap]
    omega

theorem OnClock.addSeconds (h : t.OnClock) (n : Int) : (t.addSeconds n).1.OnClock := by
  unfold Time.addSeconds
  split
  · exact h
  · exact .inl (Nat.mod_lt _ (by decide))

end Time

namespace DateTime

def toMicros (m : DateTime) : DateTime := ⟨m.date, m.time.toMicros⟩

theorem date?_fields (m : DateTime) : m.fields.date? = some m.date := Date.of?_eq_some_iff.mpr ⟨rfl, rfl, rfl⟩

theorem fields_fit (m : DateTime) : m.fields.hour < 24 ∧ m.fields.minute < 60 ∧ m.fields.second ≤ 60 ∧
    m.fields.nano < nanosPerSecond := by
  have hsecond := m.time.second_lt
  have hnano := m.time.nano_lt
  simp only [fields, secondsPerDay, nanosPerSecond] at *
  omega

theorem dateTime?_fields {m : DateTime} (h : m.time.OnClock) : m.fields.dateTime? = some m.toMicros := by
  have htime : Time.of? m.fields.hour m.fields.minute m.fields.second m.fields.nano = some m.time.toMicros := by
    have hnano := m.time.nano_lt
    have hleap : m.fields.second = 60 ↔ nanosPerSecond ≤ m.time.nano := by
      simp only [Time.OnClock, fields, nanosPerSecond] at *
      omega
    refine Time.of?_eq_some_iff.mpr ⟨m.fields_fit, ?_, ?_⟩
    · simp only [Time.OnClock, fields, Time.toMicros, nanosPerSecond] at *
      omega
    · by_cases hlate : nanosPerSecond ≤ m.time.nano
      · rw [if_pos (hleap.mpr hlate)]
        simp only [fields, Time.toMicros, nanosPerSecond] at *
        omega
      · rw [if_neg (mt hleap.mp hlate)]
        simp only [fields, Time.toMicros, nanosPerSecond] at *
        omega
  simp [Fields.dateTime?, date?_fields, htime, toMicros]

/-- Off the clock, the fields are those of another moment. -/
theorem exists_dateTime?_fields (m : DateTime) : ∃ m', m.fields.dateTime? = some m' ∧ m'.time.OnClock := by
  have hfit := Time.parts_lt m.fields_fit
  have htime := Time.of?_eq_some_iff (t := ⟨_, _, hfit.1, hfit.2⟩).mpr ⟨m.fields_fit, rfl, rfl⟩
  exact ⟨⟨m.date, _⟩, by simp [Fields.dateTime?, date?_fields, htime], Time.onClock_of? htime⟩

end DateTime

theorem Date.exists_text_eq_cons (d : Date) : ∃ c cs, d.text.toList = c :: cs ∧ Opens c := by
  obtain ⟨c, cs, hcs, hopens⟩ := exists_yearText_eq_cons d.year
  simp only [Date.text, String.toList_append, hcs, List.cons_append]
  exact ⟨_, _, rfl, hopens⟩

theorem ofPattern?_text (m : DateTime) :
    DateTime.ofPattern? (dashedDate ++ .gap :: longTime) m.text.toList = m.fields.dateTime? := by
  have hblank : " ".toList = [' '] := by simp
  have hgap : readPiece m.date.fields .gap (' ' :: m.time.text.toList) = some (m.date.fields, m.time.text.toList) := by
    have htrim : trimStart m.time.text.toList = m.time.text.toList := by
      simp only [Time.text, String.toList_append, List.append_assoc]
      exact trimStart_digits (isDigits_padded 2 _) (padded_ne_nil 2 _) _
    have hskip : trimStart (' ' :: m.time.text.toList) = trimStart m.time.text.toList := by
      rw [trimStart, trimStart, List.dropWhile_cons, if_pos (by decide)]
    rw [readPiece, hskip, htrim]
  rw [DateTime.ofPattern?, DateTime.text, String.toList_append, String.toList_append, hblank, List.append_assoc,
    List.singleton_append, readPattern_date, readPattern_cons hgap, readPattern_time, Option.bind_some]

theorem absolute?_text {m m' : DateTime} (h : m.fields.dateTime? = some m') : absolute? m.text.toList = some m' := by
  have hfirst := (ofPattern?_text m).trans h
  simp [absolute?, dateTimePatterns, hfirst]

/-- After a date without a time there is nothing that an hour or a `T` could be read from. -/
theorem ofPattern?_date_eq_none (d : Date) : ∀ pattern ∈ dateTimePatterns, DateTime.ofPattern? pattern d.text.toList = none := by
  have hdate (pieces : List Piece) : readPattern (dashedDate ++ pieces) {} d.text.toList = readPattern pieces d.fields [] := by
    simpa using readPattern_date d pieces []
  intro pattern hpattern
  simp only [dateTimePatterns, List.mem_cons, List.not_mem_nil, or_false] at hpattern
  rcases hpattern with rfl | rfl | rfl | rfl <;> rw [DateTime.ofPattern?, hdate] <;> rfl

theorem Date.ofPattern?_text (d : Date) : Date.ofPattern? dashedDate d.text.toList = some d := by
  have hread : readPattern dashedDate {} d.text.toList = some d.fields := by
    simpa [readPattern] using readPattern_date d [] []
  rw [Date.ofPattern?, hread]
  exact Date.of?_eq_some_iff.mpr ⟨rfl, rfl, rfl⟩

theorem absolute?_dateText (d : Date) : absolute? d.text.toList = some (.startOfDay d) := by
  have hnone : (dateTimePatterns.findSome? fun pattern => DateTime.ofPattern? pattern d.text.toList) = none :=
    List.findSome?_eq_none_iff.mpr (ofPattern?_date_eq_none d)
  simp [absolute?, hnone, datePatterns, Date.ofPattern?_text]

theorem readMoment_of_absolute? {text : String} (htext : text.toList = c :: cs)
    (hopens : Opens c) (hlast : ∀ z ∈ text.toList.getLast?, z.isDigit = true) {m : DateTime}
    (h : absolute? text.toList = some m) (now : DateTime) : readMoment text now = .ok m := by
  have htrim : trim text.toList = text.toList := by
    apply trim_of_ends
    · intro z hz
      rw [htext] at hz
      cases hz
      exact hopens.isBlank
    · exact fun z hz => isBlank_of_isDigit (hlast z hz)
  have hword {word : String} (w : Char) (hw : word.toList.head? = some w) (hne : ¬ Opens w) :
      String.ofList ((trim text.toList).map lowerAscii) ≠ word := by
    rintro rfl
    rw [String.toList_ofList, htrim, htext, List.map_cons, hopens.lowerAscii_eq] at hw
    exact hne (Option.some.inj hw ▸ hopens)
  dsimp only [readMoment]
  split
  · next heq => exact absurd heq (hword 'n' (by simp) (by decide))
  · next heq => exact absurd heq (hword 't' (by simp) (by decide))
  · next heq => exact absurd heq (hword 'y' (by simp) (by decide))
  · next heq => exact absurd heq (hword 't' (by simp) (by decide))
  · rw [htrim, h]

theorem isDigit_of_getLast?_append {text ds : List Char} (hds : IsDigits ds) (hne : ds ≠ []) :
    ∀ z ∈ (text ++ ds).getLast?, z.isDigit = true := by
  intro z hz
  rw [List.getLast?_append_of_ne_nil _ hne] at hz
  exact hds z (List.mem_of_getLast? hz)

theorem Date.isDigit_getLast? (d : Date) : ∀ z ∈ d.text.toList.getLast?, z.isDigit = true := by
  rw [Date.text, String.toList_append]
  exact isDigit_of_getLast?_append (isDigits_padded 2 _) (padded_ne_nil 2 _)

theorem DateTime.isDigit_getLast? (m : DateTime) : ∀ z ∈ m.text.toList.getLast?, z.isDigit = true := by
  rw [DateTime.text, Time.text]
  split
  · simp only [String.append_empty, String.toList_append, ← List.append_assoc]
    exact isDigit_of_getLast?_append (isDigits_padded 2 _) (padded_ne_nil 2 _)
  · simp only [String.toList_append, ← List.append_assoc]
    exact isDigit_of_getLast?_append (isDigits_padded 6 _) (padded_ne_nil 6 _)

theorem readMoment_text_of_fields {m m' : DateTime} (h : m.fields.dateTime? = some m') (now : DateTime) :
    readMoment m.text now = .ok m' := by
  obtain ⟨c, cs, hcs, hopens⟩ := m.date.exists_text_eq_cons
  have htext : m.text.toList = c :: (cs ++ " ".toList ++ m.time.text.toList) := by
    rw [DateTime.text, String.toList_append, String.toList_append, hcs, List.cons_append, List.cons_append]
  exact readMoment_of_absolute? htext hopens m.isDigit_getLast? (absolute?_text h) now

theorem readMoment_dateText (d : Date) (now : DateTime) : readMoment d.text now = .ok (.startOfDay d) := by
  obtain ⟨c, cs, hcs, hopens⟩ := d.exists_text_eq_cons
  exact readMoment_of_absolute? hcs hopens d.isDigit_getLast? (absolute?_dateText d) now

namespace DateTime

variable {m m' : DateTime}

theorem onClock_addSeconds? {n : Int} (h : m.time.OnClock) (hm : m.addSeconds? n = some m') : m'.time.OnClock := by
  obtain ⟨date, -, rfl⟩ := Option.map_eq_some_iff.mp hm
  exact h.addSeconds n

theorem onClock_addMonths? {n : Int} (h : m.time.OnClock) (hm : m.addMonths? n = some m') : m'.time.OnClock := by
  obtain ⟨date, -, rfl⟩ := Option.map_eq_some_iff.mp hm
  exact h

theorem onClock_beforeNow? {count : Nat} {unit : String} (h : now.time.OnClock)
    (hm : beforeNow? now count unit = some m) : m.time.OnClock := by
  dsimp only [beforeNow?] at hm
  split at hm
  · exact onClock_addSeconds? h hm
  · exact onClock_addSeconds? h hm
  · exact onClock_addSeconds? h hm
  · exact onClock_addSeconds? h hm
  · exact onClock_addSeconds? h hm
  · exact onClock_addMonths? h hm
  · split at hm
    · exact onClock_addMonths? h hm
    · cases hm
  · cases hm

theorem onClock_span? (h : now.time.OnClock) (hm : span? cs now = some m) : m.time.OnClock := by
  unfold span? at hm
  split at hm
  · obtain ⟨count, -, hm⟩ := Option.bind_eq_some_iff.mp hm
    exact onClock_beforeNow? h hm
  · obtain ⟨count, -, hm⟩ := Option.bind_eq_some_iff.mp hm
    exact onClock_beforeNow? h hm
  · cases hm

theorem onClock_absolute? (hm : absolute? cs = some m) : m.time.OnClock := by
  unfold absolute? at hm
  split at hm
  · next hfound =>
    cases hm
    obtain ⟨pattern, -, hpattern⟩ := List.exists_of_findSome?_eq_some hfound
    obtain ⟨f, -, hfields⟩ := Option.bind_eq_some_iff.mp hpattern
    obtain ⟨date, -, hfields⟩ := Option.bind_eq_some_iff.mp hfields
    obtain ⟨time, htime, hfields⟩ := Option.bind_eq_some_iff.mp hfields
    cases hfields
    exact Time.onClock_of? htime
  · obtain ⟨d, -, rfl⟩ := Option.map_eq_some_iff.mp hm
    exact .inl (show 0 < nanosPerSecond by decide)

theorem onClock_readMoment {text : String} (h : now.time.OnClock) (hm : readMoment text now = .ok m) :
    m.time.OnClock := by
  dsimp only [readMoment] at hm
  split at hm
  · cases hm
    exact h
  · cases hm
    exact h
  · split at hm
    · next hshifted =>
      cases hm
      exact onClock_addSeconds? h hshifted
    · cases hm
  · split at hm
    · next hshifted =>
      cases hm
      exact onClock_addSeconds? h hshifted
    · cases hm
  · split at hm
    · next habsolute =>
      cases hm
      exact onClock_absolute? habsolute
    · split at hm
      · next hspan =>
        cases hm
        exact onClock_span? h hspan
      · cases hm

end DateTime

/-- A written moment is read back without what it held below a microsecond, so whole microseconds come back as they
were, leap seconds included, and a written date is read as its midnight. Only a leap second within a minute is
read as something else, and no text is read as one by a clock that shows none. -/
theorem readMoment_text (m : DateTime) (d : Date) (now : DateTime) :
    (m.time.OnClock → readMoment m.text now = .ok m.toMicros) ∧
    (readMoment m.text now = .ok m ↔ m.time.OnClock ∧ m.time.nano % 1000 = 0) ∧
    readMoment d.text now = .ok (.startOfDay d) ∧
    (now.time.OnClock → ∀ text m', readMoment text now = .ok m' → m'.time.OnClock) := by
  have hclock (h : m.time.OnClock) : readMoment m.text now = .ok m.toMicros :=
    readMoment_text_of_fields (DateTime.dateTime?_fields h) now
  refine ⟨hclock, ⟨?_, ?_⟩, readMoment_dateText d now, fun h _ _ => DateTime.onClock_readMoment h⟩
  · intro hread
    obtain ⟨m', hfields, honClock⟩ := m.exists_dateTime?_fields
    have hsame : m' = m := Except.ok.inj ((readMoment_text_of_fields hfields now).symm.trans hread)
    rw [hsame] at honClock
    have hmicros : m.toMicros = m := Except.ok.inj ((hclock honClock).symm.trans hread)
    have hnano : m.time.nano / 1000 * 1000 = m.time.nano := congrArg (fun m => m.time.nano) hmicros
    exact ⟨honClock, by omega⟩
  · rintro ⟨honClock, hnano⟩
    rw [hclock honClock, DateTime.toMicros, Time.toMicros_eq_self hnano]

/-- The seven nanoseconds of a leap second before year 0 are not written. -/
theorem readMoment_text_leap :
    let m : DateTime := ⟨⟨-1, 12, 31, by decide⟩, ⟨86399, 1500000007, by decide, by decide⟩⟩
    let now : DateTime := .startOfDay ⟨2020, 1, 14, by decide⟩
    m.time.OnClock ∧ m.text = "-0001-12-31 23:59:60.500000" ∧
      readMoment "-0001-12-31 23:59:60.500000" now = .ok ⟨m.date, ⟨86399, 1500000000, by decide, by decide⟩⟩ ∧
      readMoment m.text now ≠ .ok m ∧ readMoment m.date.text now = .ok (.startOfDay m.date) := by
  intro m now
  have honClock : m.time.OnClock := .inr (by decide)
  have htext : m.text = "-0001-12-31 23:59:60.500000" := by decide +kernel
  have hmicros : m.toMicros = ⟨m.date, ⟨86399, 1500000000, by decide, by decide⟩⟩ := by decide
  obtain ⟨hread, hsame, hdate, -⟩ := readMoment_text m m.date now
  refine ⟨honClock, htext, ?_, fun hread => ?_, hdate⟩
  · rw [← htext, hread honClock, hmicros]
  · exact absurd (hsame.mp hread).2 (by decide)

/-- A leap second after the fifteenth second of a minute is written as the sixteenth and read as that. -/
theorem readMoment_text_within_minute :
    let m : DateTime := ⟨⟨2016, 12, 31, by decide⟩, ⟨45015, 1000000000, by decide, by decide⟩⟩
    let now : DateTime := .startOfDay ⟨2020, 1, 14, by decide⟩
    m.time.nano % 1000 = 0 ∧ m.text = "2016-12-31 12:30:16.000000" ∧
      readMoment m.text now = .ok ⟨m.date, ⟨45016, 0, by decide, by decide⟩⟩ ∧ readMoment m.text now ≠ .ok m := by
  intro m now
  have hread : readMoment m.text now = .ok ⟨m.date, ⟨45016, 0, by decide, by decide⟩⟩ :=
    readMoment_text_of_fields (by decide +kernel) now
  refine ⟨by decide, by decide +kernel, hread, ?_⟩
  rw [hread]
  decide

end ShelfQuery.Calendar
