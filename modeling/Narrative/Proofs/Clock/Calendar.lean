import Narrative.Proofs.Clock
import Narrative.Proofs.State.Sound

/-! The calendar counts minutes. Normal fields are the digits of one number, so what a clock shows
is known by a sum of minutes, but for the years beyond the last. Machine words hold all that is
added on the way. -/

namespace Narrative

namespace ClockFields

variable {f g : ClockFields}

/-- The minutes that fields count from the beginning of the year zero. -/
def total (f : ClockFields) : Nat :=
  (((f.year * 4 + f.season) * 30 + (f.day - 1)) * 24 + f.hour) * 60 + f.minute

/-- The fields with one in the place of a year or a day zero. -/
def lifted (f : ClockFields) : ClockFields :=
  { f with year := max f.year 1, day := max f.day 1 }

theorem after_lifted (f : ClockFields) (m : Nat) : f.lifted.after m = f.after m := by
  have hyear : max (max f.year 1) 1 = max f.year 1 := Nat.max_eq_left (Nat.le_max_right ..)
  have hday : max f.day 1 - 1 = f.day - 1 := by omega
  refine Clock.ext_fields ?_
  simp only [after, lifted, yearSum, seasonSum, daySum, hourSum, minuteSum, hyear, hday]

theorem Normal.lifted_eq (hf : f.Normal) : f.lifted = f := by
  rw [lifted, Nat.max_eq_left hf.year, Nat.max_eq_left hf.day]

theorem Normal.eq_of_total_eq (hf : f.Normal) (hg : g.Normal) (h : f.total = g.total) : f = g := by
  obtain ⟨-, hseason, hday, hday', hhour, hminute⟩ := hf
  obtain ⟨-, hseason', hday₁, hday₁', hhour', hminute'⟩ := hg
  unfold total at h
  have minute : f.minute = g.minute := by omega
  have hour : f.hour = g.hour := by omega
  have day : f.day = g.day := by omega
  have season : f.season = g.season := by omega
  have year : f.year = g.year := by omega
  calc f = ⟨f.year, f.season, f.day, f.hour, f.minute⟩ := rfl
    _ = g := by rw [year, season, day, hour, minute]

/-- Fields that show `n` minutes as a clock can. They are the normal ones that count so many, if the
year of these is not beyond the last one, and otherwise these with the last year. -/
structure Marks (f : ClockFields) (n : Nat) : Prop where
  normal : f.Normal
  exact : ∃ e : ClockFields, e.Normal ∧ e.total = n ∧
    (∀ g : ClockFields, g.Normal → g.total = n → g = e) ∧
    (e.year ≤ lastYear → f.total = n) ∧ (lastYear < e.year → f = { e with year := lastYear })

theorem marks_after (f : ClockFields) (m : Nat) :
    (f.after m).toClockFields.Marks (f.lifted.total + m) := by
  let e : ClockFields :=
    ⟨f.yearSum m, f.seasonSum m % 4, f.daySum m % 30 + 1, f.hourSum m % 24, f.minuteSum m % 60⟩
  have hafter : (f.after m).toClockFields = { e with year := min e.year lastYear } := rfl
  have hnormal : e.Normal := by
    constructor <;> dsimp only [e, yearSum] <;> omega
  have htotal : e.total = f.lifted.total + m := by
    dsimp only [e, total, lifted, yearSum, seasonSum, daySum, hourSum, minuteSum]
    omega
  refine ⟨(f.after m).normal, e, hnormal, htotal, fun g hg h => ?_, fun hle => ?_, fun hlt => ?_⟩
  · exact hg.eq_of_total_eq hnormal (h.trans htotal.symm)
  · rw [hafter, Nat.min_eq_left hle, ← htotal]
  · rw [hafter, Nat.min_eq_right (Nat.le_of_lt hlt)]

end ClockFields

def wordSum? (a b : UInt64) : Option UInt64 :=
  if a.toNat + b.toNat < 18446744073709551616 then some (a + b) else none

section Words

variable {a b s r : UInt64} {field sum radix : Nat}

theorem wordSum?_eq (h : a.toNat + b.toNat < 18446744073709551616) :
    ∃ c, wordSum? a b = some c ∧ c.toNat = a.toNat + b.toNat := by
  refine ⟨a + b, if_pos h, ?_⟩
  rw [UInt64.toNat_add]
  exact Nat.mod_eq_of_lt h

/-- What a sum carries over is added to a field of 32 bits. -/
theorem wordSum?_carry (ha : a.toNat = field) (hs : s.toNat = sum) (hr : r.toNat = radix)
    (hfield : field < 4294967296) (hsum : sum < 18446744069414584320) :
    ∃ c, wordSum? a (s / r) = some c ∧ c.toNat = field + sum / radix := by
  have hle : sum / radix ≤ sum := Nat.div_le_self ..
  have hdiv : (s / r).toNat = sum / radix := by rw [UInt64.toNat_div, hs, hr]
  rw [← ha, ← hdiv]
  exact wordSum?_eq (by omega)

theorem toNat_digit (hs : s.toNat = sum) (hr : r.toNat = radix) (hpos : 0 < radix)
    (hradix : radix ≤ 256) :
    (s % r).toUInt8.toNat = sum % radix ∧ (s % r).toUInt32.toNat = sum % radix := by
  have hlt : sum % radix < radix := Nat.mod_lt _ hpos
  have hmod : (s % r).toNat = sum % radix := by rw [UInt64.toNat_mod, hs, hr]
  rw [UInt64.toNat_toUInt8, UInt64.toNat_toUInt32, hmod]
  exact ⟨Nat.mod_eq_of_lt (by omega), Nat.mod_eq_of_lt (by omega)⟩

end Words

structure ClockWords where
  year : UInt32
  season : UInt8
  day : UInt32
  hour : UInt32
  minute : UInt32
  deriving DecidableEq

namespace ClockWords

def fields (w : ClockWords) : ClockFields :=
  ⟨w.year.toNat, w.season.toNat, w.day.toNat, w.hour.toNat, w.minute.toNat⟩

def ofClock (t : Clock) : ClockWords :=
  ⟨.ofNat t.year, .ofNat t.season, .ofNat t.day, .ofNat t.hour, .ofNat t.minute⟩

def lifted (w : ClockWords) : ClockWords :=
  { w with year := max w.year 1, day := max w.day 1 }

/-- The words of the fields to which these sums come. -/
def ofSums (minutes hours days seasons years : UInt64) : ClockWords where
  year := if years.toNat ≤ lastYear then years.toUInt32 else .ofNat lastYear
  season := (seasons % 4).toUInt8
  day := (days % 30).toUInt32 + 1
  hour := (hours % 24).toUInt32
  minute := (minutes % 60).toUInt32

/-- The clock moved on in words. There is no clock if a sum is not a word, or if the day is zero. -/
def advance? (w : ClockWords) (m : UInt64) : Option ClockWords := do
  let minutes ← wordSum? w.minute.toUInt64 m
  let hours ← wordSum? w.hour.toUInt64 (minutes / 60)
  let offset ← if w.day = 0 then none else some (w.day - 1)
  let days ← wordSum? offset.toUInt64 (hours / 24)
  let seasons ← wordSum? w.season.toUInt64 (days / 30)
  let years ← wordSum? w.year.toUInt64 (seasons / 4)
  return ofSums minutes hours days seasons years

variable {w : ClockWords} {t : Clock} {m minutes hours days seasons years : UInt64}

theorem fields_ofClock (t : Clock) : (ofClock t).fields = t.toClockFields := by
  have ht := t.bounds
  have hyear := t.year_le
  unfold lastYear at hyear
  have h32 {n : Nat} (hn : n < 4294967296) : (UInt32.ofNat n).toNat = n :=
    UInt32.toNat_ofNat_of_lt' hn
  have h8 {n : Nat} (hn : n < 256) : (UInt8.ofNat n).toNat = n := UInt8.toNat_ofNat_of_lt' hn
  rw [fields, ofClock, h32 (by omega), h8 (by omega), h32 (by omega), h32 (by omega),
    h32 (by omega)]

theorem eq_ofClock (h : w.fields = t.toClockFields) : w = ofClock t := by
  rw [ofClock, ← h]
  simp only [fields, UInt32.ofNat_toNat, UInt8.ofNat_toNat]

theorem fields_lifted (w : ClockWords) : w.lifted.fields = w.fields.lifted := by
  simp only [fields, lifted, ClockFields.lifted, UInt32.toNat_max, UInt32.toNat_one]

theorem ofSums_eq {f : ClockFields} {n : Nat} (hyear : 1 ≤ f.year)
    (hminutes : minutes.toNat = f.minuteSum n) (hhours : hours.toNat = f.hourSum n)
    (hdays : days.toNat = f.daySum n) (hseasons : seasons.toNat = f.seasonSum n)
    (hyears : years.toNat = f.year + f.seasonSum n / 4) :
    ofSums minutes hours days seasons years = ofClock (f.after n) := by
  have year : (if years.toNat ≤ lastYear then years.toUInt32 else .ofNat lastYear).toNat =
      min (f.yearSum n) lastYear := by
    have hmax : max f.year 1 = f.year := Nat.max_eq_left hyear
    rw [ClockFields.yearSum, hmax, ← hyears]
    split
    · next hle =>
      have hlt : years.toNat < 4294967296 := Nat.lt_succ_of_le hle
      rw [UInt64.toNat_toUInt32, Nat.mod_eq_of_lt hlt, Nat.min_eq_left hle]
    · next hgt =>
      rw [Nat.min_eq_right (by omega)]
      rfl
  have season : (seasons % 4).toUInt8.toNat = f.seasonSum n % 4 :=
    (toNat_digit hseasons rfl (by decide) (by decide)).1
  have day : ((days % 30).toUInt32 + 1).toNat = f.daySum n % 30 + 1 := by
    rw [UInt32.toNat_add, (toNat_digit hdays rfl (by decide) (by decide)).2, UInt32.toNat_one]
    exact Nat.mod_eq_of_lt (show f.daySum n % 30 + 1 < 4294967296 by omega)
  have hour : (hours % 24).toUInt32.toNat = f.hourSum n % 24 :=
    (toNat_digit hhours rfl (by decide) (by decide)).2
  have minute : (minutes % 60).toUInt32.toNat = f.minuteSum n % 60 :=
    (toNat_digit hminutes rfl (by decide) (by decide)).2
  refine eq_ofClock ?_
  calc (ofSums minutes hours days seasons years).fields
      = ⟨min (f.yearSum n) lastYear, f.seasonSum n % 4, f.daySum n % 30 + 1, f.hourSum n % 24,
          f.minuteSum n % 60⟩ := by
        rw [fields, ofSums, year, season, day, hour, minute]
    _ = (f.after n).toClockFields := rfl

/-- No sum of a clock and of minutes that a word with a sign can hold is too great for a word. -/
theorem advance?_eq (hyear : 1 ≤ w.fields.year) (hday : 1 ≤ w.fields.day)
    (hm : m.toNat < 9223372036854775808) :
    w.advance? m = some (ofClock (w.fields.after m.toNat)) := by
  let f := w.fields
  have hminute : f.minute < 4294967296 := w.minute.toNat_lt
  have hhour : f.hour < 4294967296 := w.hour.toNat_lt
  have hone : (1 : UInt32) ≤ w.day := UInt32.le_iff_toNat_le.mpr hday
  have hzero : w.day ≠ 0 := fun h => absurd (h ▸ hone) (by decide)
  have hoffset : (w.day - 1).toNat = f.day - 1 := UInt32.toNat_sub_of_le _ _ hone
  have hdayOffset : f.day - 1 < 4294967296 := Nat.lt_of_le_of_lt (Nat.sub_le ..) w.day.toNat_lt
  have hseason : f.season < 4294967296 := Nat.lt_trans w.season.toNat_lt (by decide)
  -- Each sum is known before the next one is made of what it carries over.
  obtain ⟨minutes, hminuteSum, hminutes⟩ : ∃ c, wordSum? w.minute.toUInt64 m = some c ∧
      c.toNat = f.minuteSum m.toNat :=
        wordSum?_eq (show f.minute + m.toNat < 18446744073709551616 by omega)
  have hminuteBound : f.minuteSum m.toNat < 9223372041149743104 := by
    unfold ClockFields.minuteSum; omega
  obtain ⟨hours, hhourSum, hhours⟩ : ∃ c, wordSum? w.hour.toUInt64 (minutes / 60) = some c ∧
      c.toNat = f.hourSum m.toNat := wordSum?_carry rfl hminutes rfl hhour (by omega)
  have hhourBound : f.hourSum m.toNat < 9223372041149743104 := by unfold ClockFields.hourSum; omega
  obtain ⟨days, hdaySum, hdays⟩ : ∃ c, wordSum? (w.day - 1).toUInt64 (hours / 24) = some c ∧
      c.toNat = f.daySum m.toNat := wordSum?_carry hoffset hhours rfl hdayOffset (by omega)
  have hdayBound : f.daySum m.toNat < 9223372041149743104 := by unfold ClockFields.daySum; omega
  obtain ⟨seasons, hseasonSum, hseasons⟩ : ∃ c, wordSum? w.season.toUInt64 (days / 30) = some c ∧
      c.toNat = f.seasonSum m.toNat := wordSum?_carry rfl hdays rfl hseason (by omega)
  have hseasonBound : f.seasonSum m.toNat < 9223372041149743104 := by
    unfold ClockFields.seasonSum; omega
  obtain ⟨years, hyearSum, hyears⟩ : ∃ c, wordSum? w.year.toUInt64 (seasons / 4) = some c ∧
      c.toNat = f.year + f.seasonSum m.toNat / 4 :=
        wordSum?_carry rfl hseasons rfl w.year.toNat_lt (by omega)
  rw [← ofSums_eq hyear hminutes hhours hdays hseasons hyears]
  simp only [advance?, hminuteSum, hhourSum, if_neg hzero, hdaySum, hseasonSum, hyearSum, bind,
    Option.bind, pure]

end ClockWords

namespace Clock

/-- A clock moves on by as many minutes as it is told, in words too, and fields of any words become
a clock that shows what they count. Minutes that pass one after another pass as if they passed at
once. -/
theorem calendar_exact :
    (∀ (t : Clock) (m : Nat), m < 9223372036854775808 →
      (ClockWords.ofClock t).advance? (.ofNat m) = some (ClockWords.ofClock (t.advance m)) ∧
        (t.advance m).toClockFields.Marks (t.total + m)) ∧
    (∀ w : ClockWords, w.lifted.advance? 0 = some (ClockWords.ofClock (ofFields w.fields)) ∧
      (ofFields w.fields).toClockFields.Marks w.fields.lifted.total) ∧
    ∀ (t : Clock) (m n : Nat), m + n < 9223372036854775808 →
      (t.advance m).advance n = t.advance (m + n) := by
  refine ⟨fun t m hm => ⟨?_, ?_⟩, fun w => ⟨?_, ?_⟩, fun t m n _ => advance_advance t m n⟩
  · have hword : (UInt64.ofNat m).toNat = m :=
      UInt64.toNat_ofNat_of_lt' (Nat.lt_trans hm (by decide))
    have hfields := ClockWords.fields_ofClock t
    rw [ClockWords.advance?_eq (hfields ▸ t.year_pos) (hfields ▸ t.day_pos) (hword.symm ▸ hm),
      hword, hfields]
    rfl
  · have hmarks := t.toClockFields.marks_after m
    rwa [t.normal.lifted_eq] at hmarks
  · have hfields := w.fields_lifted
    have hyear : 1 ≤ w.lifted.fields.year := hfields ▸ Nat.le_max_right ..
    have hday : 1 ≤ w.lifted.fields.day := hfields ▸ Nat.le_max_right ..
    rw [ClockWords.advance?_eq hyear hday (by decide), hfields, ClockFields.after_lifted]
    rfl
  · exact w.fields.marks_after 0

/-- As many minutes as can pass at once pass from the last minute of the last year. -/
theorem calendar_exact_lastYear :
    let t := ofFields ⟨lastYear, 3, 30, 23, 59⟩
    let m := 9223372036854775807
    m < 9223372036854775808 ∧
      (ClockWords.ofClock t).advance? (.ofNat m) = some (ClockWords.ofClock (t.advance m)) ∧
      (t.advance m).toClockFields = ⟨lastYear, 1, 9, 18, 6⟩ ∧
        (t.advance m).toClockFields.Marks (t.total + m) := by
  intro t m
  have hm : m < 9223372036854775808 := by decide
  obtain ⟨hwords, hmarks⟩ := calendar_exact.1 t m hm
  exact ⟨hm, hwords, by decide +kernel, hmarks⟩

example : (ofFields ⟨1, 5, 31, 25, 61⟩).toClockFields = ⟨2, 2, 2, 2, 1⟩ := by decide

end Clock

end Narrative
