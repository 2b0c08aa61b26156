import Narrative.Number.Digits
import Narrative.Text.Blank
import Narrative.Text.Reader

/-! Moments of world time, down to the nanosecond, and their text. -/

namespace Narrative

def isLeapYear (year : Int) : Bool :=
  year % 4 = 0 && (year % 100 ≠ 0 || year % 400 = 0)

def monthLength (year : Int) (month : Nat) : Nat :=
  if month = 2 then if isLeapYear year then 29 else 28
  else if [4, 6, 9, 11].contains month then 30
  else 31

def writeFixed (width n : Nat) : String :=
  let ds := Nat.toDigits 10 n
  String.ofList (List.replicate (width - ds.length) '0' ++ ds)

structure Date where
  year : Int
  month : Nat
  day : Nat
  deriving DecidableEq

namespace Date

/-- The first and the last year of the calendar. -/
def firstYear : Int := -262143

def lastYear : Int := 262142

def isValid (d : Date) : Bool :=
  firstYear ≤ d.year && d.year ≤ lastYear && 1 ≤ d.month && d.month ≤ 12 && 1 ≤ d.day
    && d.day ≤ monthLength d.year d.month

def next (d : Date) : Date :=
  if d.day < monthLength d.year d.month then { d with day := d.day + 1 }
  else if d.month < 12 then ⟨d.year, d.month + 1, 1⟩
  else ⟨d.year + 1, 1, 1⟩

def previous (d : Date) : Date :=
  if 1 < d.day then { d with day := d.day - 1 }
  else if 1 < d.month then ⟨d.year, d.month - 1, monthLength d.year (d.month - 1)⟩
  else ⟨d.year - 1, 12, 31⟩

/-- Four digits of the year, or more with a sign if it does not have four. -/
def text (d : Date) : String :=
  let year := if 0 ≤ d.year ∧ d.year ≤ 9999 then writeFixed 4 d.year.natAbs
    else (if d.year < 0 then "-" else "+") ++ writeFixed 4 d.year.natAbs
  year ++ "-" ++ writeFixed 2 d.month ++ "-" ++ writeFixed 2 d.day

end Date

/-- A moment of world time. A minute can have a sixty-first second. -/
structure Instant where
  date : Date
  hour : Nat
  minute : Nat
  second : Nat
  nanos : Nat
  deriving DecidableEq

namespace Instant

/-- The fraction of a second in three, six or nine places, or none if it is zero. -/
def fractionText (nanos : Nat) : String :=
  if nanos = 0 then ""
  else if nanos % 1000000 = 0 then "." ++ writeFixed 3 (nanos / 1000000)
  else if nanos % 1000 = 0 then "." ++ writeFixed 6 (nanos / 1000)
  else "." ++ writeFixed 9 nanos

def text (t : Instant) : String :=
  t.date.text ++ "T" ++ writeFixed 2 t.hour ++ ":" ++ writeFixed 2 t.minute ++ ":"
    ++ writeFixed 2 t.second ++ fractionText t.nanos ++ "Z"

/-- One to `most` digits, after blanks. -/
def number (most : Nat) : Reader Nat := fun cs =>
  let cs := trimStart cs
  match (cs.takeWhile Char.isDigit).take most with
  | [] => none
  | ds => some (Nat.ofDigitChars 10 ds 0, cs.drop ds.length)

/-- A year: up to four digits, or any number of them after a sign. -/
def yearNumber : Reader Int := fun cs =>
  match trimStart cs with
  | '-' :: rest => signed (-1) rest
  | '+' :: rest => signed 1 rest
  | rest => (number 4 rest).map fun (n, rest) => ((n : Int), rest)
where
  signed (sign : Int) (cs : List Char) : Option (Int × List Char) :=
    match cs.takeWhile Char.isDigit with
    | [] => none
    | ds => some (sign * (Nat.ofDigitChars 10 ds 0 : Nat), cs.drop ds.length)

def mark (c : Char) : Reader Unit := fun cs =>
  match trimStart cs with
  | d :: rest => if d = c then some ((), rest) else none
  | [] => none

def calendarDay : Reader Date := fun cs => do
  let (year, cs) ← yearNumber cs
  let (_, cs) ← mark '-' cs
  let (month, cs) ← number 2 cs
  let (_, cs) ← mark '-' cs
  let (day, cs) ← number 2 cs
  let d : Date := ⟨year, month, day⟩
  if d.isValid then some (d, cs) else none

/-- The nanoseconds of a fraction, of which nine digits count. -/
def fraction : Reader Nat
  | '.' :: cs => do
    let (ds, rest) ← Reader.someRun Char.isDigit cs
    let ds := ds.take 9
    some (Nat.ofDigitChars 10 (ds ++ List.replicate (9 - ds.length) '0') 0, rest)
  | cs => some (0, cs)

/-- The minutes by which local time is ahead of world time. -/
def offset : Reader Int := fun cs =>
  match trimStart cs with
  | 'Z' :: rest | 'z' :: rest => some (0, rest)
  | '+' :: rest => distance 1 rest
  | '-' :: rest | '−' :: rest => distance (-1) rest
  | a :: b :: c :: rest =>
    if [a, b, c].map Char.toUpper = ['U', 'T', 'C'] then some (0, rest) else none
  | _ => none
where
  distance (sign : Int) : List Char → Option (Int × List Char)
    | a :: b :: rest =>
      match readNat? [a, b], rest.dropWhile fun c => c = ':' || isBlank c with
      | some hours, c :: d :: rest =>
        match readNat? [c, d] with
        | some minutes =>
          if hours ≤ 23 && minutes ≤ 59
            then some (sign * (hours * 60 + minutes : Nat), rest) else none
        | none => none
      | _, _ => none
    | _ => none

/-- The moment of a local date and time of day that is ahead of world time. -/
def ofLocal (date : Date) (hour minute second nanos : Nat) (ahead : Int) : Instant :=
  let minutes : Int := (hour * 60 + minute : Nat) - ahead
  let (date, minutes) :=
    if minutes < 0 then (date.previous, minutes + 1440)
    else if 1440 ≤ minutes then (date.next, minutes - 1440)
    else (date, minutes)
  ⟨date, minutes.toNat / 60, minutes.toNat % 60, second, nanos⟩

def ofSeconds (seconds nanos : Nat) : Instant :=
  let rest := seconds % 86400
  ⟨Nat.repeat Date.next (seconds / 86400) ⟨1970, 1, 1⟩, rest / 3600, rest % 3600 / 60,
    rest % 60, nanos⟩

/-- The moment that a text denotes: a day, a time of day and the distance from world time. Blanks
can stand around all parts. -/
def read (s : String) : Option Instant := do
  let (date, cs) ← calendarDay s.toList
  let cs ← match cs with
    | c :: cs => if c = 'T' || c = 't' || c = ' ' then some cs else none
    | [] => none
  let (hour, cs) ← number 2 cs
  let (_, cs) ← mark ':' cs
  let (minute, cs) ← number 2 cs
  let (_, cs) ← mark ':' cs
  let (second, cs) ← number 2 cs
  let (nanos, cs) ← fraction cs
  let (ahead, cs) ← offset cs
  if hour ≤ 23 && minute ≤ 59 && second ≤ 60 && (trimStart cs).isEmpty then
    let t := ofLocal date hour minute second nanos ahead
    if t.date.isValid then some t else none
  else none

end Instant

end Narrative
