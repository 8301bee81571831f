import ShelfQuery.Proofs.Calendar.TextOrder
import ShelfQuery.Proofs.Engine.Texts

set_option autoImplicit false

namespace ShelfQuery.Calendar

open ShelfQuery.Number ShelfQuery.Text ShelfQuery.Digest
open ShelfQuery.Expression (compareTexts compareTexts_eq holdsFor)

namespace Date

variable {d e : Date}

def order (d e : Date) : Ordering := if d.before e then .lt else if e.before d then .gt else .eq

theorem compareTexts_text (hd : d.FourDigits) (he : e.FourDigits) : compareTexts d.text e.text = d.order e := by
  rw [compareTexts_eq, Bool.eq_iff_iff.mpr (before_text_iff hd he), Bool.eq_iff_iff.mpr (before_text_iff he hd), order]

theorem dashed_append (h : d.FourDigits) (s : String) : Engine.Dashed (d.text ++ s) := by
  have htext : (d.text ++ s).toList = (padded 4 d.year.toNat).toList ++
      '-' :: ((padded 2 d.month).toList ++ '-' :: (padded 2 d.day).toList ++ s.toList) := by
    rw [String.toList_append, text_toList h, List.append_assoc, List.cons_append]
  exact ⟨_, _, isDigits_padded _ _, padded_ne_nil _ _, htext⟩

theorem dashed (h : d.FourDigits) : Engine.Dashed d.text := by
  simpa using dashed_append h ""

end Date

namespace DateTime

variable {a b : DateTime}

def order (a b : DateTime) : Ordering := if a.before b then .lt else if b.before a then .gt else .eq

theorem compareTexts_text (ha : a.Written) (hb : b.Written) : compareTexts a.text b.text = a.order b := by
  rw [compareTexts_eq, Bool.eq_iff_iff.mpr (before_text_iff ha hb), Bool.eq_iff_iff.mpr (before_text_iff hb ha), order]

theorem dashed (h : a.date.FourDigits) : Engine.Dashed a.text := by
  rw [text, String.append_assoc]
  exact Date.dashed_append h _

end DateTime

/-- Texts of moments and of dates sort chronologically by their bytes, leap seconds included, and a database compares
them as the calendar does, in a column of any declared type. Only a leap second within a minute, which no clock
shows, is out of order. -/
theorem texts_in_order :
    (∀ a b : DateTime, a.Written → b.Written →
      (a.before b = true ↔ bytes a.text < bytes b.text) ∧
      ∀ op affinity, op ≠ Sql.CompareOp.like →
        Engine.holds op affinity (.text a.text) (Engine.literalCell (.datetime b)) = holdsFor op (a.order b)) ∧
    (∀ d e : Date, d.FourDigits → e.FourDigits →
      (d.before e = true ↔ bytes d.text < bytes e.text) ∧
      ∀ op affinity, op ≠ Sql.CompareOp.like →
        Engine.holds op affinity (.text d.text) (Engine.literalCell (.date e)) = holdsFor op (d.order e)) ∧
    ∀ a : DateTime, a.date.FourDigits → ¬ a.time.OnClock →
      ∃ b : DateTime, b.Written ∧ a.before b = true ∧ ¬ bytes a.text < bytes b.text := by
  refine ⟨fun a b ha hb => ⟨?_, fun op affinity hop => ?_⟩, fun d e hd he => ⟨?_, fun op affinity hop => ?_⟩,
    fun a hyear hclock => DateTime.exists_before_not_lt hyear hclock⟩
  · rw [← before_iff_bytes_lt, DateTime.before_text_iff ha hb]
  · rw [← DateTime.compareTexts_text ha hb]
    exact Engine.holds_texts hop ((DateTime.dashed ha.fourDigits).keeps _) ((DateTime.dashed hb.fourDigits).keeps _)
  · rw [← before_iff_bytes_lt, Date.before_text_iff hd he]
  · rw [← Date.compareTexts_text hd he]
    exact Engine.holds_texts hop ((Date.dashed hd).keeps _) ((Date.dashed he).keeps _)

/-- The leap second at the end of 2016 lies between the last microsecond before it and the new year, and it is compared
so in a column of numeric affinity. -/
theorem texts_in_order_leap :
    let last : DateTime := ⟨⟨2016, 12, 31, by decide⟩, ⟨86399, 999999000, by decide, by decide⟩⟩
    let leap : DateTime := ⟨⟨2016, 12, 31, by decide⟩, ⟨86399, 1000000000, by decide, by decide⟩⟩
    let next : DateTime := .startOfDay ⟨2017, 1, 1, by decide⟩
    leap.text = "2016-12-31 23:59:60.000000" ∧ bytes last.text < bytes leap.text ∧ bytes leap.text < bytes next.text ∧
      Engine.holds .lt .numeric (.text leap.text) (Engine.literalCell (.datetime next)) = some true ∧
      Engine.holds .ge .numeric (.text leap.date.text) (Engine.literalCell (.date next.date)) = some false := by
  intro last leap next
  obtain ⟨hmoments, hdates, -⟩ := texts_in_order
  have hlast : last.Written := ⟨by decide, by decide, .inr (by decide)⟩
  have hleap : leap.Written := ⟨by decide, by decide, .inr (by decide)⟩
  have hnext : next.Written := ⟨by decide, by decide, .inl (by decide)⟩
  refine ⟨by decide +kernel, (hmoments last leap hlast hleap).1.mp (by decide), (hmoments leap next hleap hnext).1.mp (by decide),
    ?_, ?_⟩
  · rw [(hmoments leap next hleap hnext).2 .lt .numeric (by decide)]
    decide
  · rw [(hdates leap.date next.date hleap.fourDigits hnext.fourDigits).2 .ge .numeric (by decide)]
    decide

/-- A leap second after the fifteenth second of a minute comes before the sixteenth, and its text after that of the
sixteenth. -/
theorem texts_in_order_within_minute :
    let leap : DateTime := ⟨⟨2016, 12, 31, by decide⟩, ⟨45015, 1000000000, by decide, by decide⟩⟩
    let next : DateTime := ⟨⟨2016, 12, 31, by decide⟩, ⟨45016, 0, by decide, by decide⟩⟩
    (leap.date.FourDigits ∧ leap.time.nano % 1000 = 0 ∧ next.Written) ∧
      leap.text = "2016-12-31 12:30:16.000000" ∧ next.text = "2016-12-31 12:30:16" ∧
      leap.before next = true ∧ ¬ bytes leap.text < bytes next.text ∧
      Engine.holds .lt .numeric (.text leap.text) (Engine.literalCell (.datetime next)) = some false := by
  intro leap next
  have hleap : leap.text = "2016-12-31 12:30:16.000000" := by decide +kernel
  have hnext : next.text = "2016-12-31 12:30:16" := by decide +kernel
  refine ⟨⟨by decide, by decide, by decide, by decide, .inl (by decide)⟩, hleap, hnext, by decide, ?_, by decide +kernel⟩
  rw [← before_iff_bytes_lt, hleap, hnext]
  decide +kernel

end ShelfQuery.Calendar
