import Narrative.Toml.Scalar
import Narrative.Toml.Table

/-! Documents from TOML text. -/

namespace Narrative.Toml

/-- How deep lists and inline tables can nest, and how many keys a dotted key can have. -/
def nestingLimit : Nat := 79

def skipSpace (cs : List Char) : List Char :=
  cs.dropWhile isSpace

def isKeyChar (c : Char) : Bool :=
  c.isAlphanum || c = '-' || c = '_'

def simpleKey : Reader String := fun cs =>
  match quotedOnLine cs with
  | some r => some r
  | none => (Reader.someRun isKeyChar cs).map fun (k, rest) => (String.ofList k, rest)

def dottedKey : Nat → Reader (List String × String)
  | 0, _ => none
  | limit + 1, cs => do
    let (k, rest) ← simpleKey (skipSpace cs)
    match skipSpace rest with
    | '.' :: rest => do
      let ((path, key), rest) ← dottedKey limit rest
      some ((k :: path, key), rest)
    | rest => some (([], k), rest)

def dropComment : List Char → Option (List Char)
  | '#' :: cs =>
    let rest := cs.dropWhile isPlain
    if rest.isEmpty || (lineEnd? rest).isSome then some rest else none
  | cs => some cs

/-- Drops the rest of a line, on which only a comment may stand. -/
def finishLine (cs : List Char) : Option (List Char) := do
  let rest ← dropComment (skipSpace cs)
  if rest.isEmpty then some [] else lineEnd? rest

def skipLines (inComment : Bool) : List Char → List Char
  | [] => []
  | '\r' :: '\n' :: cs => skipLines false cs
  | c :: cs =>
    if c = '\n' then skipLines false cs
    else if inComment && isPlain c then skipLines true cs
    else if !inComment && isSpace c then skipLines false cs
    else if !inComment && c = '#' then skipLines true cs
    else c :: cs

def assignmentWith (value : Reader Json) : Reader Fields.Assignment := fun cs => do
  let ((path, key), rest) ← dottedKey nestingLimit cs
  match rest with
  | '=' :: rest => do
    let (d, rest) ← value (skipSpace rest)
    some ((path, key, d), rest)
  | _ => none

def valueWithin : Nat → Reader Json
  | depth, cs =>
    match cs with
    | '"' :: _ | '\'' :: _ => (quoted cs).map fun (s, rest) => (.text s, rest)
    | '[' :: rest =>
      match depth with
      | 0 => none
      | depth + 1 =>
        (Reader.commaList (valueWithin depth) (skipLines false) ']' true rest.length rest).map
          fun (items, rest) => (.list items, rest)
    | '\x7b' :: rest =>
      match depth with
      | 0 => none
      | depth + 1 => do
        let (l, rest) ←
          Reader.commaList (assignmentWith (valueWithin depth)) skipSpace '\x7d' false
            rest.length rest
        let fields ← Fields.assignAll [] l
        some (.table (Entry.fieldsJson fields), rest)
    | cs => bare cs

def assignment : Reader Fields.Assignment :=
  assignmentWith (valueWithin nestingLimit)

def header : Reader Header
  | '[' :: cs => do
    let ((path, key), rest) ← dottedKey nestingLimit cs
    match rest with
    | ']' :: ']' :: rest => some (⟨true, path, key⟩, rest)
    | _ => none
  | cs => do
    let ((path, key), rest) ← dottedKey nestingLimit cs
    match rest with
    | ']' :: rest => some (⟨false, path, key⟩, rest)
    | _ => none

/-- The sections of a document's lines, with those that were read before in reverse: `current` is
the section of the line. -/
def sections : Nat → Section → List Section → List Char → Option (List Section)
  | 0, _, _, _ => none
  | limit + 1, current, before, cs =>
    match skipSpace cs with
    | [] => some (({ current with assignments := current.assignments.reverse } :: before).reverse)
    | '#' :: rest => do
      let rest ← finishLine ('#' :: rest)
      sections limit current before rest
    | '[' :: rest => do
      let (h, rest) ← header rest
      let rest ← finishLine rest
      sections limit ⟨some h, []⟩
        ({ current with assignments := current.assignments.reverse } :: before) rest
    | c :: rest =>
      match lineEnd? (c :: rest) with
      | some rest => sections limit current before rest
      | none => do
        let (a, rest) ← assignment (c :: rest)
        let rest ← finishLine rest
        sections limit { current with assignments := a :: current.assignments } before rest

/-- The document that a text denotes. A byte order mark in front is dropped. -/
def read (s : String) : Option Json := do
  let cs := match s.toList with
    | '\ufeff' :: cs => cs
    | cs => cs
  Section.build (← sections (cs.length + 1) ⟨none, []⟩ [] cs)

end Narrative.Toml
