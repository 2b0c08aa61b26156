import Narrative.Json.Reader
import Narrative.Json.Scalar
import Narrative.Toml.Moment

/-! The scalars of TOML: texts in four kinds of quotes, numbers, truth values and dates. -/

namespace Narrative.Toml

def isPlain (c : Char) : Bool :=
  c = '\t' || (0x20 ≤ c.toNat && c.toNat ≠ 0x7f)

def isSpace (c : Char) : Bool :=
  c = ' ' || c = '\t'

/-- A line end: a line feed, with or without a carriage return before it. -/
def lineEnd? : List Char → Option (List Char)
  | '\n' :: cs => some cs
  | '\r' :: '\n' :: cs => some cs
  | _ => none

def dropLineEnd (cs : List Char) : List Char :=
  (lineEnd? cs).getD cs

def escaped? : Char → Option Char
  | 'b' => some '\x08'
  | 'f' => some '\x0c'
  | 'n' => some '\n'
  | 'r' => some '\r'
  | 't' => some '\t'
  | '"' => some '"'
  | '\\' => some '\\'
  | _ => none

def codePoint? (digits : List Char) : Option Char := do
  let n ← Json.hexNumber? digits
  if n.isValidChar then some (Char.ofNat n) else none

def basic : List Char → Option (List Char × List Char)
  | [] => none
  | '"' :: rest => some ([], rest)
  | '\\' :: 'u' :: a :: b :: c :: d :: rest => do
    let e ← codePoint? [a, b, c, d]
    let (cs, rest) ← basic rest
    some (e :: cs, rest)
  | '\\' :: 'U' :: a :: b :: c :: d :: e :: f :: g :: h :: rest => do
    let i ← codePoint? [a, b, c, d, e, f, g, h]
    let (cs, rest) ← basic rest
    some (i :: cs, rest)
  | '\\' :: c :: rest => do
    let c ← escaped? c
    let (cs, rest) ← basic rest
    some (c :: cs, rest)
  | c :: rest =>
    if isPlain c then do
      let (cs, rest) ← basic rest
      some (c :: cs, rest)
    else none

def raw : List Char → Option (List Char × List Char)
  | [] => none
  | '\'' :: rest => some ([], rest)
  | c :: rest =>
    if isPlain c then do
      let (cs, rest) ← raw rest
      some (c :: cs, rest)
    else none

def endsLine (cs : List Char) : Bool :=
  (lineEnd? (cs.dropWhile isSpace)).isSome

/-- The text after three double quotes. One or two quotes may stand before the closing three. After
a backslash at the end of a line all blanks are `skipped`. -/
def longBasic (skipped : Bool) : List Char → Option (List Char × List Char)
  | [] => none
  | '"' :: '"' :: '"' :: '"' :: '"' :: rest => some (['"', '"'], rest)
  | '"' :: '"' :: '"' :: '"' :: rest => some (['"'], rest)
  | '"' :: '"' :: '"' :: rest => some ([], rest)
  | '\\' :: 'u' :: a :: b :: c :: d :: rest => do
    let e ← codePoint? [a, b, c, d]
    let (cs, rest) ← longBasic false rest
    some (e :: cs, rest)
  | '\\' :: 'U' :: a :: b :: c :: d :: e :: f :: g :: h :: rest => do
    let i ← codePoint? [a, b, c, d, e, f, g, h]
    let (cs, rest) ← longBasic false rest
    some (i :: cs, rest)
  | '\\' :: c :: rest =>
    if endsLine (c :: rest) then longBasic true (c :: rest)
    else do
      let c ← escaped? c
      let (cs, rest) ← longBasic false rest
      some (c :: cs, rest)
  | '\r' :: '\n' :: rest =>
    if skipped then longBasic true rest
    else do
      let (cs, rest) ← longBasic false rest
      some ('\n' :: cs, rest)
  | c :: rest =>
    if skipped && (isSpace c || c = '\n') then longBasic true rest
    else if isPlain c || c = '\n' then do
      let (cs, rest) ← longBasic false rest
      some (c :: cs, rest)
    else none

def longRaw : List Char → Option (List Char × List Char)
  | [] => none
  | '\'' :: '\'' :: '\'' :: '\'' :: '\'' :: rest => some (['\'', '\''], rest)
  | '\'' :: '\'' :: '\'' :: '\'' :: rest => some (['\''], rest)
  | '\'' :: '\'' :: '\'' :: rest => some ([], rest)
  | '\r' :: '\n' :: rest => do
    let (cs, rest) ← longRaw rest
    some ('\n' :: cs, rest)
  | c :: rest =>
    if isPlain c || c = '\n' then do
      let (cs, rest) ← longRaw rest
      some (c :: cs, rest)
    else none

def quotedOnLine : Reader String
  | '"' :: rest => (basic rest).map fun (cs, rest) => (String.ofList cs, rest)
  | '\'' :: rest => (raw rest).map fun (cs, rest) => (String.ofList cs, rest)
  | _ => none

def quoted : Reader String
  | '"' :: '"' :: '"' :: rest =>
    (longBasic false (dropLineEnd rest)).map fun (cs, rest) => (String.ofList cs, rest)
  | '\'' :: '\'' :: '\'' :: rest =>
    (longRaw (dropLineEnd rest)).map fun (cs, rest) => (String.ofList cs, rest)
  | cs => quotedOnLine cs

/-- Digits of a class, between which single underscores may stand. -/
def digits (isDigit : Char → Bool) : List Char → Option (List Char × List Char)
  | [] => none
  | c :: cs =>
    if isDigit c then
      match cs with
      | '_' :: cs => (digits isDigit cs).map fun (ds, rest) => (c :: ds, rest)
      | cs =>
        match digits isDigit cs with
        | some (ds, rest) => some (c :: ds, rest)
        | none => some ([c], cs)
    else none

def sign : List Char → Bool × List Char
  | '-' :: cs => (true, cs)
  | '+' :: cs => (false, cs)
  | cs => (false, cs)

/-- The digits of a whole number, of which the first is no zero unless it is alone. -/
def wholeDigits : Reader (List Char)
  | '0' :: rest => some (['0'], rest)
  | cs => digits Char.isDigit cs

def fraction? : Reader (Option (List Char))
  | '.' :: rest => (digits Char.isDigit rest).map fun (ds, rest) => (some ds, rest)
  | cs => some (none, cs)

def exponent? : Reader (Option Int)
  | c :: rest =>
    if c = 'e' || c = 'E' then
      let (negative, rest) := sign rest
      (digits Char.isDigit rest).map fun (ds, rest) =>
        let n : Int := Nat.ofDigitChars 10 ds 0
        (some (if negative then -n else n), rest)
    else some (none, c :: rest)
  | [] => some (none, [])

/-- A float; one too great to be a double is refused unless it is negative. -/
def float : Reader Json := fun cs => do
  let (negative, cs) := sign cs
  let (whole, cs) ← wholeDigits cs
  let (fraction, cs) ← fraction? cs
  let (exponent, cs) ← exponent? cs
  if fraction.isNone && exponent.isNone then none
  let x := readFloat whole (fraction.getD []) (exponent.getD 0)
  if !x.isFinite && !negative then none
  else some (.float (if negative then -x else x), cs)

def specialFloat : Reader Json := fun cs =>
  match sign cs with
  | (negative, 'i' :: 'n' :: 'f' :: rest) =>
    some (.float (if negative then -1 / 0 else 1 / 0), rest)
  | (_, 'n' :: 'a' :: 'n' :: rest) => some (.float (0 / 0), rest)
  | _ => none

def isHexDigit (c : Char) : Bool :=
  (Json.hexValue? c).isSome

def baseNumber (base : Nat) (ds : List Char) : Int :=
  (ds.foldl (fun n c => n * base + (Json.hexValue? c).getD 0) 0 : Nat)

def wordJson (n : Int) (rest : List Char) : Option (Json × List Char) :=
  (int64? n).map fun _ => (.int n, rest)

def integer : Reader Json
  | '0' :: 'x' :: rest => (digits isHexDigit rest).bind fun (ds, rest) =>
    wordJson (baseNumber 16 ds) rest
  | '0' :: 'o' :: rest =>
    (digits (fun c => '0' ≤ c && c ≤ '7') rest).bind fun (ds, rest) =>
      wordJson (baseNumber 8 ds) rest
  | '0' :: 'b' :: rest =>
    (digits (fun c => c = '0' || c = '1') rest).bind fun (ds, rest) =>
      wordJson (baseNumber 2 ds) rest
  | cs => do
    let (negative, cs) := sign cs
    let (ds, cs) ← wholeDigits cs
    let n := baseNumber 10 ds
    wordJson (if negative then -n else n) cs

def bare : Reader Json := fun cs =>
  match cs with
  | 't' :: 'r' :: 'u' :: 'e' :: rest => some (.bool true, rest)
  | 'f' :: 'a' :: 'l' :: 's' :: 'e' :: rest => some (.bool false, rest)
  | cs =>
    match moment cs with
    | some (text, rest) => some (Json.moment text, rest)
    | none => float cs <|> specialFloat cs <|> integer cs

end Narrative.Toml
