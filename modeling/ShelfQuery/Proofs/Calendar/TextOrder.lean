import ShelfQuery.Proofs.Calendar.RoundTrip
import ShelfQuery.Proofs.Text.ByteOrder

set_option autoImplicit false

namespace ShelfQuery.Calendar

open ShelfQuery.Number ShelfQuery.Text ShelfQuery.Digest

namespace Date

/-- The year is written with four digits and no sign. -/
def FourDigits (d : Date) : Prop := 0 ≤ d.year ∧ d.year ≤ 9999

instance (d : Date) : Decidable d.FourDigits := inferInstanceAs (Decidable (0 ≤ d.year ∧ d.year ≤ 9999))

theorem text_toList {d : Date} (h : d.FourDigits) : d.text.toList =
    (padded 4 d.year.toNat).toList ++ '-' :: ((padded 2 d.month).toList ++ '-' :: (padded 2 d.day).toList) := by
  have hdash : "-".toList = ['-'] := by simp
  have hyear : yearText d.year = padded 4 d.year.toNat := by
    rw [yearText, if_neg (Int.not_lt.mpr h.1), if_neg (Int.not_lt.mpr h.2)]
    congr 1
    have := h.1
    omega
  simp only [text, hyear, String.toList_append, hdash, List.append_assoc, List.cons_append, List.nil_append]

theorem eq_iff {d e : Date} : d = e ↔ d.year = e.year ∧ d.month = e.month ∧ d.day = e.day := by
  cases d
  cases e
  simp

theorem before_text_append {d e : Date} (hd : d.FourDigits) (he : e.FourDigits) (u v : List Char) :
    Text.before (d.text.toList ++ u) (e.text.toList ++ v) = true ↔
      d.before e = true ∨ d = e ∧ Text.before u v = true := by
  rw [text_toList hd, text_toList he, eq_iff]
  obtain ⟨hd, hd'⟩ := hd
  obtain ⟨he, he'⟩ := he
  have hlt : d.year.toNat < e.year.toNat ↔ d.year < e.year := by omega
  have heq : d.year.toNat = e.year.toNat ↔ d.year = e.year := by omega
  simp only [List.append_assoc, List.cons_append]
  rw [before_padded_append (by decide) (by omega) (by omega), before_cons_self,
    before_padded_append (by decide) d.month_lt e.month_lt, before_cons_self,
    before_padded_append (by decide) d.day_lt e.day_lt, hlt, heq]
  simp only [before, Bool.or_eq_true, Bool.and_eq_true, decide_eq_true_eq, beq_iff_eq]
  tauto

theorem before_text_iff {d e : Date} (hd : d.FourDigits) (he : e.FourDigits) :
    Text.before d.text.toList e.text.toList = true ↔ d.before e = true := by
  have happend := before_text_append hd he [] []
  simpa [Text.before] using happend

end Date

/-- A moment as it is written: a date, a time of day to the second, and six decimals or none. -/
structure Stamp where
  date : Date
  hour : Nat
  minute : Nat
  second : Nat
  micros : Option Nat
  hour_lt : hour < 24
  minute_lt : minute < 60
  second_le : second ≤ 60
  micros_lt : ∀ n ∈ micros, n < 10 ^ 6

namespace Stamp

def decimals : Option Nat → String
  | none => ""
  | some n => "." ++ padded 6 n

def text (s : Stamp) : String :=
  s.date.text ++ " " ++ padded 2 s.hour ++ ":" ++ padded 2 s.minute ++ ":" ++ padded 2 s.second ++ decimals s.micros

def clock (s : Stamp) : List Nat := [s.hour, s.minute, s.second] ++ s.micros.toList

theorem before_decimals {m n : Option Nat} (hm : ∀ k ∈ m, k < 10 ^ 6) (hn : ∀ k ∈ n, k < 10 ^ 6) :
    Text.before (decimals m).toList (decimals n).toList = true ↔ m.toList < n.toList := by
  have hpoint (k : Nat) : (decimals (some k)).toList = '.' :: ((padded 6 k).toList ++ []) := by simp [decimals]
  cases m with
  | none =>
    cases n with
    | none => simp [decimals, Text.before]
    | some l => simp [decimals, Text.before]
  | some k =>
    cases n with
    | none => simp [decimals, Text.before]
    | some l =>
      rw [hpoint, hpoint, before_cons_self, before_padded_append (by decide) (hm k rfl) (hn l rfl)]
      simp [Text.before, List.cons_lt_cons_iff]

theorem before_text_iff {a b : Stamp} (ha : a.date.FourDigits) (hb : b.date.FourDigits) :
    Text.before a.text.toList b.text.toList = true ↔
      a.date.before b.date = true ∨ a.date = b.date ∧ a.clock < b.clock := by
  have htext (s : Stamp) : s.text.toList = s.date.text.toList ++ ' ' :: ((padded 2 s.hour).toList ++
      ':' :: ((padded 2 s.minute).toList ++ ':' :: ((padded 2 s.second).toList ++ (decimals s.micros).toList))) := by
    simp [text]
  have hhour := a.hour_lt
  have hhour' := b.hour_lt
  have hminute := a.minute_lt
  have hminute' := b.minute_lt
  have hsecond := a.second_le
  have hsecond' := b.second_le
  rw [htext, htext, Date.before_text_append ha hb, before_cons_self,
    before_padded_append (by decide) (by omega) (by omega), before_cons_self,
    before_padded_append (by decide) (by omega) (by omega), before_cons_self,
    before_padded_append (by decide) (by omega) (by omega), before_decimals a.micros_lt b.micros_lt]
  simp only [clock, List.cons_append, List.nil_append, List.cons_lt_cons_iff]

end Stamp

namespace DateTime

def stamp (m : DateTime) : Stamp where
  date := m.date
  hour := m.time.second / 3600
  minute := m.time.second / 60 % 60
  second := m.time.second % 60 + m.time.nano / nanosPerSecond
  micros := if m.time.nano = 0 then none else some (m.time.nano % nanosPerSecond / 1000)
  hour_lt := by
    have h := m.time.second_lt
    unfold secondsPerDay at h
    omega
  minute_lt := Nat.mod_lt _ (by decide)
  second_le := by
    have h := m.time.nano_lt
    unfold nanosPerSecond at h ⊢
    omega
  micros_lt := by
    intro n hn
    unfold nanosPerSecond at hn
    split at hn
    · cases hn
    · obtain rfl := Option.some.inj hn
      omega

theorem text_stamp (m : DateTime) : m.stamp.text = m.text := by
  have hdecimals : Stamp.decimals m.stamp.micros =
      if m.time.nano = 0 then "" else "." ++ padded 6 (m.time.nano % nanosPerSecond / 1000) := by
    unfold stamp
    split <;> rfl
  rw [Stamp.text, hdecimals, DateTime.text, Time.text]
  simp only [stamp, String.append_assoc]

/-- A moment that its text tells: the year has four digits, there is nothing below a microsecond, and a leap second
ends its minute. -/
structure Written (m : DateTime) : Prop where
  fourDigits : m.date.FourDigits
  micros : m.time.nano % 1000 = 0
  onClock : m.time.OnClock

theorem clock_lt_iff {a b : DateTime} (ha : a.Written) (hb : b.Written) :
    a.stamp.clock < b.stamp.clock ↔
      a.time.second < b.time.second ∨ a.time.second = b.time.second ∧ a.time.nano < b.time.nano := by
  have hnano := a.time.nano_lt
  have hnano' := b.time.nano_lt
  obtain ⟨-, hmicros, honClock⟩ := ha
  obtain ⟨-, hmicros', honClock'⟩ := hb
  unfold Time.OnClock at honClock honClock'
  simp only [Stamp.clock, stamp, List.cons_append, List.nil_append, List.cons_lt_cons_iff]
  unfold nanosPerSecond at *
  by_cases hzero : a.time.nano = 0 <;> by_cases hzero' : b.time.nano = 0 <;>
    simp only [hzero, hzero', if_true, if_false, Option.toList_none, Option.toList_some, List.cons_lt_cons_iff,
      List.nil_lt_cons, List.not_lt_nil, and_true, and_false, or_false] <;>
    omega

theorem before_text_iff {a b : DateTime} (ha : a.Written) (hb : b.Written) :
    Text.before a.text.toList b.text.toList = true ↔ a.before b = true := by
  rw [← a.text_stamp, ← b.text_stamp, Stamp.before_text_iff ha.fourDigits hb.fourDigits, clock_lt_iff ha hb]
  simp only [stamp, before, Bool.or_eq_true, Bool.and_eq_true, decide_eq_true_eq, beq_iff_eq]

/-- A leap second within a minute is written as the second after it, so its text comes after that of a later moment. -/
theorem exists_before_not_lt {a : DateTime} (hyear : a.date.FourDigits) (hclock : ¬ a.time.OnClock) :
    ∃ b : DateTime, b.Written ∧ a.before b = true ∧ ¬ bytes a.text < bytes b.text := by
  have hsecond := a.time.second_lt
  have hnano := a.time.nano_lt
  unfold Time.OnClock nanosPerSecond at hclock
  unfold secondsPerDay at hsecond
  unfold nanosPerSecond at hnano
  let b : DateTime := ⟨a.date, ⟨a.time.second + 1, 0, by unfold secondsPerDay; omega, by decide⟩⟩
  have hb : b.Written := ⟨hyear, rfl, .inl (show 0 < nanosPerSecond by decide)⟩
  refine ⟨b, hb, ?_, ?_⟩
  · have hdate : a.date = b.date := rfl
    have hlt : a.time.second < b.time.second := Nat.lt_succ_self _
    simp [before, hdate, hlt]
  · have hclocks : a.stamp.clock = b.stamp.clock ++ [a.time.nano % nanosPerSecond / 1000] := by
      have hne : a.time.nano ≠ 0 := by omega
      have hsecond' : b.time.second = a.time.second + 1 := rfl
      have hnano' : b.time.nano = 0 := rfl
      simp only [Stamp.clock, stamp, hne, hsecond', hnano', if_true, if_false, Option.toList_none, Option.toList_some,
        List.append_nil, List.cons_append, List.nil_append, List.cons.injEq, and_true, nanosPerSecond]
      omega
    rw [← before_iff_bytes_lt, ← a.text_stamp, ← b.text_stamp, Stamp.before_text_iff hyear hyear, hclocks]
    rintro (hbefore | ⟨-, hlt⟩)
    · exact absurd (Date.before_iff.mp hbefore) (Int.lt_irrefl _)
    · exact absurd hlt (List.not_lt.mpr (List.IsPrefix.le (List.prefix_append _ _)))

theorem text_toList (m : DateTime) : m.text.toList = m.date.text.toList ++ ' ' :: m.time.text.toList := by
  have hblank : " ".toList = [' '] := by simp
  rw [text, String.toList_append, String.toList_append, hblank, List.append_assoc, List.singleton_append]

end DateTime

namespace Stamp

variable {s : Stamp} {d : Date}

theorem before_startOfDay (hs : s.date.FourDigits) (hd : d.FourDigits) :
    Text.before s.text.toList (DateTime.startOfDay d).text.toList = s.date.before d := by
  have hclock : ¬ s.clock < (DateTime.startOfDay d).stamp.clock := by
    have hmidnight : (DateTime.startOfDay d).stamp.clock = [0, 0, 0] := by
      simp [clock, DateTime.stamp, DateTime.startOfDay, Time.midnight]
    rw [hmidnight]
    simp [clock, List.cons_lt_cons_iff]
  have hiff : Text.before s.text.toList (DateTime.startOfDay d).stamp.text.toList = true ↔
      s.date.before d = true ∨ s.date = d ∧ s.clock < (DateTime.startOfDay d).stamp.clock := before_text_iff hs hd
  rw [DateTime.text_stamp] at hiff
  exact Bool.eq_iff_iff.mpr (hiff.trans ⟨fun h => h.resolve_right fun h => hclock h.2, .inl⟩)

/-- The last moment of a day comes before no time of day but that of a leap second. -/
theorem endOfDay_before (hs : s.date.FourDigits) (hd : d.FourDigits) (hsecond : s.second ≤ 59) :
    Text.before (DateTime.endOfDay d).text.toList s.text.toList = d.before s.date := by
  have hclock : ¬ (DateTime.endOfDay d).stamp.clock < s.clock := by
    have hlast : (DateTime.endOfDay d).stamp.clock = [23, 59, 59, 999999] := by
      have hseconds : (DateTime.endOfDay d).time.second = 86399 := rfl
      have hnano : (DateTime.endOfDay d).time.nano = 999999000 := rfl
      simp only [clock, DateTime.stamp, hseconds, hnano]
      rfl
    have hhour := s.hour_lt
    have hminute := s.minute_lt
    rw [hlast]
    cases hm : s.micros with
    | none =>
      simp only [clock, hm, Option.toList_none, List.append_nil, List.cons_lt_cons_iff, List.not_lt_nil,
        and_false, or_false]
      omega
    | some n =>
      have hn := s.micros_lt n hm
      simp only [clock, hm, Option.toList_some, List.cons_append, List.nil_append, List.cons_lt_cons_iff,
        List.not_lt_nil, and_false, or_false]
      omega
  have hiff : Text.before (DateTime.endOfDay d).stamp.text.toList s.text.toList = true ↔
      d.before s.date = true ∨ d = s.date ∧ (DateTime.endOfDay d).stamp.clock < s.clock := before_text_iff hd hs
  rw [DateTime.text_stamp] at hiff
  exact Bool.eq_iff_iff.mpr (hiff.trans ⟨fun h => h.resolve_right fun h => hclock h.2, .inl⟩)

end Stamp

namespace Date

variable {d e : Date}

/-- A year before 0 is written with a sign, and the sign comes before all digits. -/
theorem text_before_of_neg (hd : d.year < 0) (he : e.FourDigits) (v : List Char) :
    Text.before d.text.toList (e.text.toList ++ v) = true := by
  have hyear : (yearText d.year).toList = '-' :: (padded 4 d.year.natAbs).toList := by
    rcases yearText_cases d.year with ⟨-, htext⟩ | ⟨hlarge, -⟩ | ⟨hge, -⟩
    · exact htext
    · omega
    · omega
  obtain ⟨c, cs, hcs⟩ := List.exists_cons_of_ne_nil (padded_ne_nil 4 e.year.toNat)
  have hdigit := (isDigit_range (isDigits_padded 4 e.year.toNat c (by simp [hcs]))).1
  have hless : 45 < c.toNat := Nat.lt_of_lt_of_le (by decide) hdigit
  rw [text_toList he, hcs]
  simp [text, hyear, Text.before, hless]

theorem before_startOfDay (hd : d.year ≤ 9999) (he : e.FourDigits) :
    Text.before d.text.toList (DateTime.startOfDay e).text.toList = !e.before d := by
  rw [DateTime.text_toList, Bool.eq_iff_iff, Bool.not_eq_true', before_eq_false_iff]
  by_cases hneg : d.year < 0
  · have hbefore : d.before e = true := by simp [before, Int.lt_of_lt_of_le hneg he.1]
    exact iff_of_true (text_before_of_neg hneg he _) (before_iff.mp hbefore).le
  · have happend := before_text_append ⟨Int.not_lt.mp hneg, hd⟩ he [] (' ' :: Time.midnight.text.toList)
    rw [List.append_nil] at happend
    refine happend.trans ?_
    rw [before_iff]
    constructor
    · rintro (hlt | ⟨rfl, -⟩)
      · exact hlt.le
      · exact le_refl _
    · intro hle
      rcases hle.lt_or_eq with hlt | heq
      · exact .inl hlt
      · exact .inr ⟨toDays_inj heq, rfl⟩

theorem endOfDay_before (hd : d.FourDigits) (he : e.year ≤ 9999) :
    Text.before (DateTime.endOfDay d).text.toList e.text.toList = d.before e := by
  rw [DateTime.text_toList]
  by_cases hneg : e.year < 0
  · have hbefore : e.before d = true := by simp [before, Int.lt_of_lt_of_le hneg hd.1]
    have hafter : d.before e = false := before_eq_false_iff.mpr (before_iff.mp hbefore).le
    rw [hafter]
    exact Text.before_asymm (text_before_of_neg hneg hd _)
  · have happend := before_text_append hd ⟨Int.not_lt.mp hneg, he⟩ (' ' :: Time.lastMoment.text.toList) []
    rw [List.append_nil] at happend
    rw [Bool.eq_iff_iff]
    refine happend.trans ?_
    simp [Text.before]

end Date

end ShelfQuery.Calendar
