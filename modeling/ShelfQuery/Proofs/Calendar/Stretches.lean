import ShelfQuery.Proofs.Calendar.DayCount

set_option autoImplicit false

namespace ShelfQuery.Calendar

inductive Period where
  | year | quarter | month | day
  deriving DecidableEq

namespace Period

def name : Period → String
  | .year => "year"
  | .quarter => "qtr"
  | .month => "month"
  | .day => "day"

/-- The number of the stretch that a date lies in. -/
def index : Period → Date → Int
  | .year, d => d.year
  | .quarter, d => d.year * 4 + ((d.month - 1) / 3 : Nat)
  | .month, d => d.year * 12 + (d.month - 1 : Nat)
  | .day, d => d.toDays

variable {p : Period} {i : Int} {a b d d' x : Date}

def StartsAt (p : Period) (i : Int) (a : Date) : Prop := p.index a = i ∧ ∀ x, p.index x = i → x.before a = false

def EndsAt (p : Period) (i : Int) (b : Date) : Prop := p.index b = i ∧ ∀ x, p.index x = i → b.before x = false

end Period

def Within (r : Date × Date) (x : Date) : Prop := x.before r.1 = false ∧ r.2.before x = false

instance (r : Date × Date) (d : Date) : Decidable (Within r d) :=
  inferInstanceAs (Decidable (d.before r.1 = false ∧ r.2.before d = false))

namespace Period

variable {p : Period} {i : Int} {a b d d' x : Date}

theorem index_mono (p : Period) (h : d.toDays ≤ d'.toDays) : p.index d ≤ p.index d' := by
  have hmonth := d.isDay.2.1
  have hmonth' := d'.isDay.2.1
  have hindex : d.monthIndex ≤ d'.monthIndex := by
    by_contra hlt
    have hdays := Date.toDays_lt_iff.mpr (.inl (Int.not_le.mp hlt))
    omega
  unfold Date.monthIndex at hindex
  cases p with
  | day => exact h
  | year | quarter | month =>
    unfold index
    dsimp only
    omega

theorem within_iff (ha : p.StartsAt i a) (hb : p.EndsAt i b) : Within (a, b) x ↔ p.index x = i := by
  constructor
  · rintro ⟨hfirst, hlast⟩
    have hge : p.index a ≤ p.index x := p.index_mono (Date.before_eq_false_iff.mp hfirst)
    have hle : p.index x ≤ p.index b := p.index_mono (Date.before_eq_false_iff.mp hlast)
    have hi := ha.1
    have hi' := hb.1
    omega
  · intro hx
    exact ⟨ha.2 x hx, hb.2 x hx⟩

theorem next_of_endsAt (hb : p.EndsAt i b) (ha : p.StartsAt (i + 1) a) : b.Next a := by
  have hb' := hb.1
  have ha' := ha.1
  have hlt : b.toDays < a.toDays := by
    by_contra hle
    have hmono := p.index_mono (Int.not_lt.mp hle)
    omega
  -- the day after the end belongs to the next stretch, so nothing lies between
  obtain ⟨x, hx⟩ := Date.exists_toDays b a (k := b.toDays + 1) (by omega) (by omega)
  have hge := p.index_mono (show b.toDays ≤ x.toDays by omega)
  have hle := p.index_mono (show x.toDays ≤ a.toDays by omega)
  have hne : p.index x ≠ i := fun hi => by
    have hend := Date.before_eq_false_iff.mp (hb.2 x hi)
    omega
  have hstart := Date.before_eq_false_iff.mp (ha.2 x (by omega))
  exact Date.next_iff.mpr (by omega)

inductive Counts : Period → Nat → Prop where
  | year : Counts .year 12
  | quarter : Counts .quarter 3
  | month : Counts .month 1

theorem Counts.index_eq {k : Nat} (h : Counts p k) (d : Date) : p.index d = d.monthIndex / k := by
  have hmonth := d.isDay.2.1
  unfold Date.monthIndex
  cases h with
  | year | quarter | month =>
    unfold index
    dsimp only
    omega

theorem Counts.startsAt_iff {k : Nat} (h : Counts p k) : p.StartsAt i a ↔ a.monthIndex = k * i ∧ a.day = 1 := by
  have hday := a.day_bounds
  constructor
  · rintro ⟨hindex, hfirst⟩
    rw [h.index_eq] at hindex
    have hyear := a.isDay.1
    rw [Date.year_eq] at hyear
    have hlength := monthLength_bounds (k * i)
    obtain ⟨x, hmonth, hx⟩ := Date.exists_monthIndex (k * i) 1 (by cases h <;> omega) (by omega)
    have hle := mt Date.toDays_lt_iff.mpr
      (Int.not_lt.mpr (Date.before_eq_false_iff.mp (hfirst x (by rw [h.index_eq]; cases h <;> omega))))
    have hge : k * i ≤ a.monthIndex := by cases h <;> omega
    omega
  · rintro ⟨hmonth, hone⟩
    refine ⟨by rw [h.index_eq]; cases h <;> omega, fun x hx => Date.before_eq_false_iff.mpr (Int.not_lt.mp fun hlt => ?_)⟩
    have hday' := x.day_bounds
    have hcases := Date.toDays_lt_iff.mp hlt
    rw [h.index_eq] at hx
    have hge : k * i ≤ x.monthIndex := by cases h <;> omega
    omega

theorem Counts.endsAt_iff {k : Nat} (h : Counts p k) :
    p.EndsAt i b ↔ b.monthIndex = k * i + (k - 1) ∧ b.day = monthLength b.monthIndex := by
  have hday := b.day_bounds
  constructor
  · rintro ⟨hindex, hlast⟩
    rw [h.index_eq] at hindex
    have hyear := b.isDay.1
    rw [Date.year_eq] at hyear
    have hlength := monthLength_bounds (k * i + (k - 1))
    obtain ⟨x, hmonth, hx⟩ := Date.exists_monthIndex (k * i + (k - 1)) (monthLength (k * i + (k - 1)))
      (by cases h <;> omega) (by omega)
    have hle := mt Date.toDays_lt_iff.mpr
      (Int.not_lt.mpr (Date.before_eq_false_iff.mp (hlast x (by rw [h.index_eq]; cases h <;> omega))))
    have hmonth' : b.monthIndex = k * i + (k - 1) := by
      have hge : b.monthIndex ≤ k * i + (k - 1) := by cases h <;> omega
      omega
    rw [hmonth'] at hday ⊢
    exact ⟨rfl, by omega⟩
  · rintro ⟨hmonth, hend⟩
    refine ⟨by rw [h.index_eq]; cases h <;> omega, fun x hx => Date.before_eq_false_iff.mpr (Int.not_lt.mp fun hlt => ?_)⟩
    have hday' := x.day_bounds
    rw [h.index_eq] at hx
    have hge : x.monthIndex ≤ b.monthIndex := by cases h <;> omega
    rcases Date.toDays_lt_iff.mp hlt with hlater | ⟨hsame, hlater⟩
    · omega
    · rw [← hsame] at hday'
      omega

theorem counts_or_day (p : Period) : (∃ k, Counts p k) ∨ p = .day := by
  cases p with
  | year => exact .inl ⟨12, .year⟩
  | quarter => exact .inl ⟨3, .quarter⟩
  | month => exact .inl ⟨1, .month⟩
  | day => exact .inr rfl

/-- A stretch of which a date lies in the calendar lies in it as a whole. -/
theorem exists_bounds (h : p.index x = i) : ∃ a b, p.StartsAt i a ∧ p.EndsAt i b := by
  rcases p.counts_or_day with ⟨k, hk⟩ | rfl
  · have hyear := x.isDay.1
    rw [Date.year_eq] at hyear
    rw [hk.index_eq] at h
    have hfirst := monthLength_bounds (k * i)
    have hlast := monthLength_bounds (k * i + (k - 1))
    obtain ⟨a, ha⟩ := Date.exists_monthIndex (k * i) 1 (by cases hk <;> omega) (by omega)
    obtain ⟨b, hb, hday⟩ := Date.exists_monthIndex (k * i + (k - 1)) (monthLength (k * i + (k - 1)))
      (by cases hk <;> omega) (by omega)
    exact ⟨a, b, hk.startsAt_iff.mpr ha, hk.endsAt_iff.mpr ⟨hb, hb ▸ hday⟩⟩
  · have hself (y : Date) (hy : Period.day.index y = i) : y = x := Date.toDays_inj (hy.trans h.symm)
    refine ⟨x, x, ⟨h, fun y hy => ?_⟩, ⟨h, fun y hy => ?_⟩⟩ <;>
      exact Date.before_eq_false_iff.mpr (by rw [hself y hy])

end Period

end ShelfQuery.Calendar
