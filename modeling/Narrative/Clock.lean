import Narrative.Number.Digits

/-! The story clock: years of four seasons of thirty days. Its fields stay within their bounds, and
it moves forward only. -/

namespace Narrative

/-- Clock fields as they are given, which may exceed their bounds. -/
structure ClockFields where
  year : Nat
  season : Nat
  day : Nat
  hour : Nat
  minute : Nat
  deriving DecidableEq

/-- The last year that the clock can show; there it stops. -/
def lastYear : Nat := 4294967295

/-- A moment of the story. Years and days count from one, seasons from zero. -/
structure Clock extends ClockFields where
  year_pos : 1 ≤ year
  year_le : year ≤ lastYear
  season_lt : season < 4
  day_pos : 1 ≤ day
  day_le : day ≤ 30
  hour_lt : hour < 24
  minute_lt : minute < 60
  deriving DecidableEq

namespace ClockFields

/-! What each field comes to when `m` minutes pass and the lower fields carry into it. -/

def minuteSum (f : ClockFields) (m : Nat) : Nat :=
  f.minute + m

def hourSum (f : ClockFields) (m : Nat) : Nat :=
  f.hour + f.minuteSum m / 60

def daySum (f : ClockFields) (m : Nat) : Nat :=
  f.day - 1 + f.hourSum m / 24

def seasonSum (f : ClockFields) (m : Nat) : Nat :=
  f.season + f.daySum m / 30

def yearSum (f : ClockFields) (m : Nat) : Nat :=
  max f.year 1 + f.seasonSum m / 4

/-- The clock `m` minutes after the given fields. A day or year zero counts as one. -/
def after (f : ClockFields) (m : Nat) : Clock where
  year := min (f.yearSum m) lastYear
  season := f.seasonSum m % 4
  day := f.daySum m % 30 + 1
  hour := f.hourSum m % 24
  minute := f.minuteSum m % 60
  year_pos := by simp only [yearSum, lastYear]; omega
  year_le := Nat.min_le_right ..
  season_lt := Nat.mod_lt _ (by omega)
  day_pos := by omega
  day_le := by omega
  hour_lt := Nat.mod_lt _ (by omega)
  minute_lt := Nat.mod_lt _ (by omega)

end ClockFields

namespace Clock

def ofFields (f : ClockFields) : Clock :=
  f.after 0

/-- Eight in the morning of the first day. -/
def start : Clock :=
  ofFields ⟨1, 0, 1, 8, 0⟩

instance : Inhabited Clock := ⟨start⟩

def advance (t : Clock) (minutes : Nat) : Clock :=
  t.toClockFields.after minutes

def seasonName (t : Clock) : String :=
  match t.season with
  | 0 => "Spring"
  | 1 => "Summer"
  | 2 => "Autumn"
  | _ => "Winter"

def isNight (t : Clock) : Bool :=
  20 ≤ t.hour || t.hour < 6

def isDay (t : Clock) : Bool :=
  !t.isNight

def text (t : Clock) : String :=
  writePadded t.hour ++ ":" ++ writePadded t.minute ++ ", Day " ++ writeNat t.day ++ " of "
    ++ t.seasonName ++ ", Year " ++ writeNat t.year

end Clock

end Narrative
