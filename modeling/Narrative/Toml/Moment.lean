import Narrative.Instant

/-! Dates and times as TOML writes them, and the one text that each is shown as. -/

namespace Narrative.Toml

def fixedNumber (n least greatest : Nat) : Reader Nat := fun cs =>
  let ds := cs.take n
  if ds.length = n && ds.all Char.isDigit then
    let v := Nat.ofDigitChars 10 ds 0
    if least ≤ v && v ≤ greatest then some (v, cs.drop n) else none
  else none

def mark (c : Char) : Reader Unit
  | d :: cs => if d = c then some ((), cs) else none
  | [] => none

def date : Reader String := fun cs => do
  let (year, cs) ← fixedNumber 4 0 9999 cs
  let (_, cs) ← mark '-' cs
  let (month, cs) ← fixedNumber 2 1 12 cs
  let (_, cs) ← mark '-' cs
  let (day, cs) ← fixedNumber 2 1 (monthLength year month) cs
  some (writeFixed 4 year ++ "-" ++ writeFixed 2 month ++ "-" ++ writeFixed 2 day, cs)

/-- The digits of a fraction that count: nine at most, without zeros at the end. -/
def significant (digits : List Char) : List Char :=
  ((digits.take 9).reverse.dropWhile (· = '0')).reverse

/-- A time of day. Zeros at the end of its fraction are left out. -/
def timeOfDay : Reader String := fun cs => do
  let (hour, cs) ← fixedNumber 2 0 23 cs
  let (_, cs) ← mark ':' cs
  let (minute, cs) ← fixedNumber 2 0 59 cs
  let (_, cs) ← mark ':' cs
  let (second, cs) ← fixedNumber 2 0 60 cs
  let (digits, cs) ← match cs with
    | '.' :: cs => Reader.someRun Char.isDigit cs
    | cs => some ([], cs)
  let fraction := significant digits
  let point := if fraction.isEmpty then "" else "."
  some (writeFixed 2 hour ++ ":" ++ writeFixed 2 minute ++ ":" ++ writeFixed 2 second ++ point
    ++ String.ofList fraction, cs)

def offset : Reader String := fun cs =>
  match cs with
  | 'Z' :: cs | 'z' :: cs => some ("Z", cs)
  | '+' :: rest => distance "+" rest
  | '-' :: rest => distance "-" rest
  | cs => some ("", cs)
where
  distance (sign : String) (cs : List Char) : Option (String × List Char) := do
    let (hour, cs) ← fixedNumber 2 0 23 cs
    let (_, cs) ← mark ':' cs
    let (minute, cs) ← fixedNumber 2 0 59 cs
    let sign := if hour = 0 && minute = 0 then "+" else sign
    some (sign ++ writeFixed 2 hour ++ ":" ++ writeFixed 2 minute, cs)

def timeAfterDate : Reader String := fun cs =>
  match cs with
  | c :: rest =>
    if c = 'T' || c = 't' || c = ' ' then do
      let (time, rest) ← timeOfDay rest
      let (zone, rest) ← offset rest
      some ("T" ++ time ++ zone, rest)
    else none
  | [] => none

def moment : Reader String := fun cs =>
  match date cs with
  | some (day, rest) =>
    match timeAfterDate rest with
    | some (time, rest) => some (day ++ time, rest)
    | none => some (day, rest)
  | none => timeOfDay cs

end Narrative.Toml
