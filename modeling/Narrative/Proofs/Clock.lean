import Narrative.Clock

/-! The order of moments. Years are of one length, so a clock is its year and the minutes since the
year began, and time that passes adds to these until the last year: there the clock starts the same
year again. -/

namespace Narrative

namespace Clock

/-- The first field in which two moments differ says which of them is before the other. -/
def Before (t u : Clock) : Prop :=
  t.year < u.year ∨ t.year = u.year ∧
    (t.season < u.season ∨ t.season = u.season ∧
      (t.day < u.day ∨ t.day = u.day ∧
        (t.hour < u.hour ∨ t.hour = u.hour ∧ t.minute < u.minute)))

instance (t u : Clock) : Decidable (t.Before u) :=
  inferInstanceAs (Decidable (_ ∨ _))

def yearLength : Nat := 172800

def sinceNewYear (t : Clock) : Nat :=
  ((t.season * 30 + (t.day - 1)) * 24 + t.hour) * 60 + t.minute

variable (t u : Clock) (m n : Nat)

theorem bounds : 1 ≤ t.year ∧ t.season < 4 ∧ 1 ≤ t.day ∧ t.day ≤ 30 ∧ t.hour < 24 ∧ t.minute < 60 :=
  ⟨t.year_pos, t.season_lt, t.day_pos, t.day_le, t.hour_lt, t.minute_lt⟩

theorem before_iff :
    t.Before u ↔ t.year < u.year ∨ t.year = u.year ∧ t.sinceNewYear < u.sinceNewYear := by
  have ht := t.bounds
  have hu := u.bounds
  unfold Before sinceNewYear
  omega

theorem ext_fields {t u : Clock} (h : t.toClockFields = u.toClockFields) : t = u := by
  cases t
  cases u
  cases h
  rfl

theorem ext_sinceNewYear {t u : Clock} (hyear : t.year = u.year)
    (h : t.sinceNewYear = u.sinceNewYear) : t = u := by
  have hle : ¬ t.Before u := by rw [before_iff]; omega
  have hge : ¬ u.Before t := by rw [before_iff]; omega
  unfold Before at hle hge
  have hseason : t.season = u.season := by omega
  have hday : t.day = u.day := by omega
  have hhour : t.hour = u.hour := by omega
  have hminute : t.minute = u.minute := by omega
  apply ext_fields
  calc t.toClockFields = ⟨t.year, t.season, t.day, t.hour, t.minute⟩ := rfl
    _ = u.toClockFields := by rw [hyear, hseason, hday, hhour, hminute]

theorem sinceNewYear_advance : (t.advance m).sinceNewYear = (t.sinceNewYear + m) % yearLength := by
  have ht := t.bounds
  simp only [sinceNewYear, yearLength, advance, ClockFields.after, ClockFields.seasonSum,
    ClockFields.daySum, ClockFields.hourSum, ClockFields.minuteSum]
  omega

theorem year_advance :
    (t.advance m).year = min (t.year + (t.sinceNewYear + m) / yearLength) lastYear := by
  have ht := t.bounds
  simp only [sinceNewYear, yearLength, advance, ClockFields.after, ClockFields.yearSum,
    ClockFields.seasonSum, ClockFields.daySum, ClockFields.hourSum, ClockFields.minuteSum]
  omega

theorem sinceNewYear_lt : t.sinceNewYear < yearLength := by
  have ht := t.bounds
  unfold sinceNewYear yearLength
  omega

theorem advance_zero : t.advance 0 = t := by
  have hlt := t.sinceNewYear_lt
  apply ext_sinceNewYear
  · rw [year_advance, Nat.add_zero, Nat.div_eq_of_lt hlt, Nat.add_zero, Nat.min_eq_left t.year_le]
  · rw [sinceNewYear_advance, Nat.add_zero, Nat.mod_eq_of_lt hlt]

theorem advance_advance : (t.advance m).advance n = t.advance (m + n) := by
  apply ext_sinceNewYear
  · simp only [year_advance, sinceNewYear_advance, yearLength]
    omega
  · simp only [sinceNewYear_advance, yearLength]
    omega

/-- Time that passes puts the clock back only where it goes beyond the end of the last year. -/
theorem advance_before_iff : (t.advance m).Before t ↔
    t.year = lastYear ∧ (t.sinceNewYear + m) % yearLength < t.sinceNewYear := by
  have hle := t.year_le
  rw [before_iff, year_advance, sinceNewYear_advance]
  unfold yearLength
  omega

end Clock

end Narrative
