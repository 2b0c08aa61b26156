import Narrative.Json
import Narrative.Text.Reader

/-! Documents from JSON text. Nesting is limited, and a text that does not denote exactly one
document is refused. -/

namespace Narrative.Json

def depthLimit : Nat := 127

def isGap (c : Char) : Bool :=
  c = ' ' || c = '\n' || c = '\t' || c = '\r'

def skipGap (cs : List Char) : List Char :=
  cs.dropWhile isGap

def hexValue? (c : Char) : Option Nat :=
  if c.isDigit then some (c.toNat - '0'.toNat)
  else if 'a' ≤ c && c ≤ 'f' then some (c.toNat - 'a'.toNat + 10)
  else if 'A' ≤ c && c ≤ 'F' then some (c.toNat - 'A'.toNat + 10)
  else none

def hexNumber? (cs : List Char) : Option Nat :=
  cs.foldlM (fun n c => (hexValue? c).map fun d => n * 16 + d) 0

def isHighHalf (n : Nat) : Bool :=
  0xd800 ≤ n && n < 0xdc00

def isLowHalf (n : Nat) : Bool :=
  0xdc00 ≤ n && n < 0xe000

def plainEscape? : Char → Option Char
  | '"' => some '"'
  | '\\' => some '\\'
  | '/' => some '/'
  | 'b' => some '\x08'
  | 'f' => some '\x0c'
  | 'n' => some '\n'
  | 'r' => some '\r'
  | 't' => some '\t'
  | _ => none

/-- The characters of a quoted text after its opening quote. The two halves of a character beyond
the basic plane stand in one pair of escapes, and half a character alone is refused. -/
def quoted : List Char → Option (List Char × List Char)
  | [] => none
  | '"' :: rest => some ([], rest)
  | '\\' :: 'u' :: a :: b :: c :: d :: '\\' :: 'u' :: e :: f :: g :: h :: rest => do
    let high ← hexNumber? [a, b, c, d]
    if isHighHalf high then
      let low ← hexNumber? [e, f, g, h]
      if isLowHalf low then
        let (cs, rest) ← quoted rest
        some (Char.ofNat (0x10000 + (high - 0xd800) * 0x400 + (low - 0xdc00)) :: cs, rest)
      else none
    else if isLowHalf high then none
    else
      let (cs, rest) ← quoted ('\\' :: 'u' :: e :: f :: g :: h :: rest)
      some (Char.ofNat high :: cs, rest)
  | '\\' :: 'u' :: a :: b :: c :: d :: rest => do
    let n ← hexNumber? [a, b, c, d]
    if isHighHalf n || isLowHalf n then none
    else
      let (cs, rest) ← quoted rest
      some (Char.ofNat n :: cs, rest)
  | '\\' :: c :: rest => do
    let c ← plainEscape? c
    let (cs, rest) ← quoted rest
    some (c :: cs, rest)
  | c :: rest =>
    if c.toNat < 0x20 then none
    else do
      let (cs, rest) ← quoted rest
      some (c :: cs, rest)

/-- Appends digits to a number while it fits 64 bits, and counts those that are left over. -/
def gather (n : Nat) : List Char → Nat × Nat
  | [] => (n, 0)
  | d :: ds =>
    let next := n * 10 + (d.toNat - '0'.toNat)
    if next < 18446744073709551616 then gather next ds else (n, ds.length + 1)

/-- `n · 10 ^ e` by one or two roundings, unless it is out of range. -/
def scaled? (n : Nat) (e : Int) : Option Float :=
  let x := Float.ofNat n
  if n = 0 then some 0
  else if 308 < e then none
  else if 0 ≤ e then
    let y := x * Float.ofScientific 1 false e.toNat
    if y.isFinite then some y else none
  else if -308 ≤ e then some (x / Float.ofScientific 1 false e.natAbs)
  else if -616 ≤ e then some (x / 1e308 / Float.ofScientific 1 false (e.natAbs - 308))
  else some 0

def exponent : Reader Int
  | '-' :: cs => do
    let (ds, rest) ← Reader.someRun Char.isDigit cs
    some (-(Nat.ofDigitChars 10 ds 0 : Int), rest)
  | '+' :: cs => do
    let (ds, rest) ← Reader.someRun Char.isDigit cs
    some ((Nat.ofDigitChars 10 ds 0 : Int), rest)
  | cs => do
    let (ds, rest) ← Reader.someRun Char.isDigit cs
    some ((Nat.ofDigitChars 10 ds 0 : Int), rest)

/-- The number of a whole part, and of a fraction and an exponent if they are written. It is whole
if neither is and it fits 64 bits; a negative zero is a float. -/
def number? (negative : Bool) (whole : List Char) (fraction : Option (List Char))
    (exponent : Option Int) : Option Json := do
  let (n, extra) := gather 0 whole
  let signed (x : Float) : Json := .float (if negative then -x else x)
  match fraction, exponent, extra with
  | none, none, 0 =>
    if negative then
      if 0 < n && n ≤ 9223372036854775808 then some (.int (-(n : Int)))
        else some (signed (Float.ofNat n))
    else some (.int n)
  | fraction, exponent, extra =>
    let digits := fraction.getD []
    let (n, unused) := gather n digits
    let x ← scaled? n ((extra : Int) - (digits.length - unused : Nat) + exponent.getD 0)
    some (signed x)

/-- A number after its sign. A leading zero stands alone. -/
def unsignedNumber (negative : Bool) : Reader Json := fun cs => do
  let (whole, rest) ← Reader.someRun Char.isDigit cs
  if whole.head? = some '0' && whole.length ≠ 1 then none
  let (fraction, rest) ← match rest with
    | '.' :: rest => (Reader.someRun Char.isDigit rest).map fun (ds, rest) => (some ds, rest)
    | rest => some (none, rest)
  let (e, rest) ← match rest with
    | 'e' :: rest | 'E' :: rest => (exponent rest).map fun (e, rest) => (some e, rest)
    | rest => some (none, rest)
  let d ← number? negative whole fraction e
  some (d, rest)

def fieldWith (value : Reader Json) : Reader (String × Json) := fun cs =>
  match skipGap cs with
  | '"' :: rest => do
    let (name, rest) ← quoted rest
    match skipGap rest with
    | ':' :: rest => do
      let (d, rest) ← value rest
      some ((String.ofList name, d), rest)
    | _ => none
  | _ => none

/-- A document inside which lists and tables may nest `depth` deep. -/
def valueWithin : Nat → Reader Json
  | depth, cs =>
    match skipGap cs with
    | '"' :: rest => (quoted rest).map fun (s, rest) => (.text (String.ofList s), rest)
    | '-' :: rest => unsignedNumber true rest
    | 't' :: rest => (Reader.exactly "rue" rest).map fun (_, rest) => (.bool true, rest)
    | 'f' :: rest => (Reader.exactly "alse" rest).map fun (_, rest) => (.bool false, rest)
    | 'n' :: rest => (Reader.exactly "ull" rest).map fun (_, rest) => (.null, rest)
    | '[' :: rest =>
      match depth with
      | 0 => none
      | depth + 1 =>
        (Reader.commaList (valueWithin depth) skipGap ']' false rest.length rest).map
          fun (items, rest) => (.list items, rest)
    | '\x7b' :: rest =>
      match depth with
      | 0 => none
      | depth + 1 =>
        (Reader.commaList (fieldWith (valueWithin depth)) skipGap '\x7d' false rest.length rest).map
          fun (fields, rest) => (.table fields, rest)
    | cs => unsignedNumber false cs

def read (s : String) : Option Json := do
  let (d, rest) ← valueWithin depthLimit s.toList
  if (skipGap rest).isEmpty then some d else none

end Narrative.Json
