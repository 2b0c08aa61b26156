import Narrative.Json.Reader
import Narrative.Ron

/-! Values from RON text. Nesting is limited, and a text that does not hold exactly one value is
refused. -/

namespace Narrative.Ron

/-- How deep values can nest. A list or map counts once for itself and once for what is in it. -/
def nestingLimit : Nat := 128

def isGap (c : Char) : Bool :=
  c = ' ' || c = '\t' || c = '\n' || c = '\r'

/-- The text after comments in one another, of which `level + 1` are open. -/
def closeComment : Nat → List Char → Option (List Char)
  | _, [] => none
  | level, '/' :: '*' :: cs => closeComment (level + 1) cs
  | 0, '*' :: '/' :: cs => Option.some cs
  | level + 1, '*' :: '/' :: cs => closeComment level cs
  | level, _ :: cs => closeComment level cs

/-- Drops blanks and comments; a comment that does not end stays. -/
def skipWithin : Nat → List Char → List Char
  | 0, cs => cs
  | limit + 1, cs =>
    match cs.dropWhile isGap with
    | '/' :: '/' :: rest => skipWithin limit (rest.dropWhile (· ≠ '\n'))
    | '/' :: '*' :: rest =>
      match closeComment 0 rest with
      | Option.some rest => skipWithin limit rest
      | none => '/' :: '*' :: rest
    | rest => rest

def skip (cs : List Char) : List Char :=
  skipWithin (cs.length + 1) cs

def isNameStart (c : Char) : Bool :=
  c.isAlpha || c = '_'

def isNameChar (c : Char) : Bool :=
  c.isAlphanum || c = '_'

def isRawNameChar (c : Char) : Bool :=
  isNameChar c || c = '.' || c = '+' || c = '-'

/-- A name. One that goes on with characters only raw names have is refused, and so is the start of
a raw text. -/
def identifier : Reader String
  | 'r' :: '"' :: _ => none
  | 'r' :: '#' :: rest =>
    (Reader.someRun isRawNameChar rest).map fun (n, rest) => (String.ofList n, rest)
  | c :: cs =>
    if isNameStart c then
      let rest := (c :: cs).dropWhile isNameChar
      match rest with
      | d :: _ => if isRawNameChar d then none else named (c :: cs) rest
      | [] => named (c :: cs) rest
    else none
  | [] => none
where
  named (cs rest : List Char) : Option (String × List Char) :=
    Option.some (String.ofList (cs.takeWhile isNameChar), rest)

def word (word : String) : Reader Unit := fun cs => do
  let (_, rest) ← Reader.exactly word cs
  match rest with
  | c :: _ => if isNameChar c then none else Option.some ((), rest)
  | [] => Option.some ((), rest)

def plainEscape? : Char → Option Char
  | '\'' => Option.some '\''
  | '"' => Option.some '"'
  | '\\' => Option.some '\\'
  | 'n' => Option.some '\n'
  | 'r' => Option.some '\r'
  | 't' => Option.some '\t'
  | '0' => Option.some '\x00'
  | _ => none

def escape : Reader Char
  | 'x' :: a :: b :: rest => do
    let n ← Json.hexNumber? [a, b]
    Option.some (Char.ofNat n, rest)
  | 'u' :: '\x7b' :: rest => do
    let ds := rest.takeWhile (· ≠ '\x7d')
    if ds.isEmpty || 6 < ds.length then none
    let n ← Json.hexNumber? ds
    if !n.isValidChar then none
    match rest.dropWhile (· ≠ '\x7d') with
    | '\x7d' :: rest => Option.some (Char.ofNat n, rest)
    | _ => none
  | c :: rest => (plainEscape? c).map fun c => (c, rest)
  | [] => none

def quoted : Nat → List Char → Option (List Char × List Char)
  | 0, _ => none
  | _, [] => none
  | _, '"' :: rest => Option.some ([], rest)
  | limit + 1, '\\' :: rest => do
    let (c, rest) ← escape rest
    let (cs, rest) ← quoted limit rest
    Option.some (c :: cs, rest)
  | limit + 1, c :: rest => do
    let (cs, rest) ← quoted limit rest
    Option.some (c :: cs, rest)

def rawUntil (mark : List Char) : List Char → Option (List Char × List Char)
  | [] => none
  | c :: cs =>
    if mark.isPrefixOf (c :: cs) then Option.some ([], (c :: cs).drop mark.length)
    else (rawUntil mark cs).map fun (s, rest) => (c :: s, rest)

def text : Reader String
  | '"' :: rest => (quoted (rest.length + 1) rest).map fun (s, rest) => (String.ofList s, rest)
  | 'r' :: rest =>
    let hashes := rest.takeWhile (· = '#')
    match rest.drop hashes.length with
    | '"' :: rest => (rawUntil ('"' :: hashes) rest).map fun (s, rest) => (String.ofList s, rest)
    | _ => none
  | _ => none

def character : Reader Char
  | '\\' :: rest =>
    match escape rest with
    | Option.some (c, '\'' :: rest) => Option.some (c, rest)
    | _ => none
  | c :: '\'' :: rest => if c = '\'' then none else Option.some (c, rest)
  | _ => none

def isFloatChar (c : Char) : Bool :=
  c.isDigit || c = 'e' || c = 'E' || c = '.' || c = '+' || c = '-' || c = '_'

def isIntChar (c : Char) : Bool :=
  (Json.hexValue? c).isSome || c = '_'

def sign : List Char → Option Bool × List Char
  | '-' :: cs => (Option.some true, cs)
  | '+' :: cs => (Option.some false, cs)
  | cs => (none, cs)

/-- The number that a whole text is written as: digits with a point, an exponent or both. -/
def float? (cs : List Char) : Option Float := do
  let (negative, cs) := sign cs
  let whole := cs.takeWhile Char.isDigit
  let rest := cs.dropWhile Char.isDigit
  let (fraction, rest) := match rest with
    | '.' :: rest => (rest.takeWhile Char.isDigit, rest.dropWhile Char.isDigit)
    | rest => ([], rest)
  if whole.isEmpty && fraction.isEmpty then none
  let e ← match rest with
    | [] => Option.some (0 : Int)
    | c :: rest => if c = 'e' || c = 'E' then readInt? rest else none
  let x := readFloat whole fraction e
  Option.some (if negative = Option.some true then -x else x)

def inBase? (base : Nat) : List Char → Option Nat
  | '_' :: _ => none
  | [] => none
  | cs => (cs.filter (· ≠ '_')).foldlM
      (fun n c => (Json.hexValue? c).bind fun d =>
        if d < base then Option.some (n * base + d) else none) 0

def natural : Reader Nat := fun cs =>
  let (base, cs) := match cs with
    | '0' :: 'x' :: rest => (16, rest)
    | '0' :: 'b' :: rest => (2, rest)
    | '0' :: 'o' :: rest => (8, rest)
    | cs => (10, cs)
  (inBase? base (cs.takeWhile isIntChar)).map fun n => (n, cs.dropWhile isIntChar)

/-- A whole number that fits 64 bits, with a sign only if one is written. -/
def integer : Reader Json := fun cs =>
  match sign cs with
  | (none, cs) => (natural cs).bind fun (n, rest) =>
    if n ≤ 18446744073709551615 then Option.some (.int n, rest) else none
  | (Option.some negative, cs) => (natural cs).bind fun (n, rest) =>
    let n : Int := if negative then -n else n
    (int64? n).map fun _ => (.int n, rest)

def float : Reader Json := fun cs =>
  let special := ["+inf", "+NaN", "-NaN"].findSome? fun w => word w cs
  match special with
  | Option.some (_, rest) => Option.some (.null, rest)
  | none => (float? (cs.takeWhile isFloatChar)).map fun x => (.float x, cs.dropWhile isFloatChar)

def number : Reader Json := fun cs =>
  let digits := (sign cs).2
  if (digits.takeWhile isIntChar).length < (digits.takeWhile isFloatChar).length then float cs
  else integer cs <|> float cs

/-- A value between others of its kind: a name, a colon and the value of a field. -/
def fieldWith (value : Reader Ron) : Reader (String × Ron) := fun cs => do
  let (n, rest) ← identifier cs
  match skip rest with
  | ':' :: rest => do
    let (v, rest) ← value (skip rest)
    Option.some ((n, v), rest)
  | _ => none

def entryWith (value : Reader Ron) : Reader (Ron × Ron) := fun cs => do
  let (k, rest) ← value cs
  match skip rest with
  | ':' :: rest => do
    let (v, rest) ← value (skip rest)
    Option.some ((k, v), rest)
  | _ => none

def startsField (cs : List Char) : Bool :=
  match identifier cs with
  | Option.some (_, rest) => (skip rest).head? = Option.some ':'
  | none => false

def group (name : Option String) (item : Reader Ron) : Reader Ron := fun cs =>
  if startsField (skip cs) then
    (Reader.commaList (fieldWith item) skip ')' true cs.length cs).map fun (fs, rest) =>
      (record name fs, rest)
  else
    (Reader.commaList item skip ')' true cs.length cs).map fun (vs, rest) => (tuple name vs, rest)

/-- What stands behind `Some`: one value in parentheses, after which a comma may stand. -/
def wrapped (inner : Reader Ron) : Reader Ron := fun cs =>
  match skip cs with
  | '(' :: rest => do
    let (v, rest) ← inner (skip rest)
    match skip rest with
    | ')' :: rest => Option.some (Ron.some v, rest)
    | ',' :: rest =>
      match skip rest with
      | ')' :: rest => Option.some (Ron.some v, rest)
      | _ => none
    | _ => none
  | _ => none

def oneOf (words : List String) : Reader Unit := fun cs =>
  words.findSome? fun w => word w cs

def unnamed (opened : Bool) (item : Reader Ron) : Reader Ron
  | [] => none
  | '(' :: ')' :: rest => Option.some (unit, rest)
  | '\'' :: rest => (character rest).map fun (c, rest) => (char c, rest)
  | c :: rest =>
    if c = '(' then if opened then group none item rest else none
    else if c = '[' then
      if opened then
        (Reader.commaList item skip ']' true rest.length rest).map fun (vs, rest) => (list vs, rest)
      else none
    else if c = '\x7b' then
      if opened then
        (Reader.commaList (entryWith item) skip '\x7d' true rest.length rest).map
          fun (es, rest) => (map es, rest)
      else none
    else if c = '"' || c = 'r' then
      (text (c :: rest)).map fun (s, rest) => (scalar (.text s), rest)
    else if c.isDigit || c = '+' || c = '-' || c = '.' then
      (number (c :: rest)).map fun (d, rest) => (scalar d, rest)
    else none

/-- A value with what can stand in it: `item` in lists, maps and parentheses, if they may be
`opened` at all, and `inner` behind `Some`. -/
def value (opened : Bool) (item inner : Reader Ron) : Reader Ron := fun cs =>
  if let Option.some (_, rest) := word "true" cs then Option.some (scalar (.bool true), rest)
  else if let Option.some (_, rest) := word "false" cs then Option.some (scalar (.bool false), rest)
  else if let Option.some (_, rest) := word "Some" cs then wrapped inner rest
  else if let Option.some (_, rest) := word "None" cs then Option.some (name "None", rest)
  else if let Option.some (_, rest) := oneOf ["inf", "-inf", "NaN"] cs then
    Option.some (scalar .null, rest)
  else if let Option.some (n, rest) := identifier cs then
    match skip rest with
    | '(' :: rest => if opened then group (Option.some n) item rest else none
    | rest => Option.some (name n, rest)
  else unnamed opened item cs

def valueWithin : Nat → Reader Ron
  | 0 => value false (fun _ => none) fun _ => none
  | 1 => value true (fun _ => none) (valueWithin 0)
  | room + 2 => value true (valueWithin room) (valueWithin (room + 1))

/-- The names that can stand in an attribute; what they enable makes no difference here. -/
def extensions : List String :=
  ["unwrap_newtypes", "implicit_some", "unwrap_variant_newtypes"]

def extension : Reader String := fun cs => do
  let (n, rest) ← identifier cs
  if extensions.contains n then Option.some (n, rest) else none

def marks (l : List String) (cs : List Char) : Option (List Char) :=
  l.foldlM (fun cs m => (Reader.exactly m cs).map fun r => skip r.2) cs

def dropAttributes : Nat → List Char → Option (List Char)
  | 0, _ => none
  | limit + 1, cs =>
    match cs with
    | '#' :: _ => do
      let rest ← marks ["#", "!", "[", "enable", "("] cs
      let (names, rest) ← Reader.commaList extension skip ')' true rest.length rest
      if names.isEmpty then none
      let rest ← marks ["]"] (skip rest)
      dropAttributes limit rest
    | cs => Option.some cs

def read (s : String) : Option Ron := do
  let cs := skip s.toList
  let cs ← dropAttributes (cs.length + 1) cs
  let (v, rest) ← valueWithin nestingLimit cs
  if (skip rest).isEmpty then Option.some v else none

end Narrative.Ron
