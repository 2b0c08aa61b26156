import Narrative.Text.Split

/-! Paths: how they are written, joined and taken apart. A path that starts with a slash is
absolute, and one that does not is followed from the working directory. -/

namespace Narrative

inductive Step where
  | here
  | up
  | name (s : String)
  deriving DecidableEq

structure Path where
  text : String
  deriving DecidableEq, Inhabited

namespace Step

def ofSegment (s : List Char) : Step :=
  if s = ['.'] then here
  else if s = ['.', '.'] then up
  else name (String.ofList s)

def name? : Step → Option String
  | .name s => some s
  | _ => none

def text : Step → String
  | .here => "."
  | .up => ".."
  | .name s => s

end Step

/-- The parts of a text between the places where `mark` stands. -/
def splitChar (mark : Char) : List Char → List (List Char)
  | [] => [[]]
  | c :: cs =>
    if c = mark then [] :: splitChar mark cs
    else match splitChar mark cs with
      | [] => [[c]]
      | part :: parts => (c :: part) :: parts

namespace Path

def ofSteps (ss : List Step) : Path :=
  ⟨joinWith "/" (ss.map Step.text)⟩

def isAbsolute (p : Path) : Bool :=
  p.text.toList.head? = some '/'

/-- The steps of a path. Repeated slashes count once. -/
def steps (p : Path) : List Step :=
  ((splitChar '/' p.text.toList).filter (!·.isEmpty)).map Step.ofSegment

/-- Whether a path ends in a slash, and so can only be that of a directory. -/
def endsInSlash (p : Path) : Bool :=
  p.text.toList.getLast? = some '/'

def join (p : Path) (q : String) : Path :=
  if q.toList.head? = some '/' || p.text.isEmpty then ⟨q⟩
  else if p.endsInSlash then ⟨p.text ++ q⟩
  else ⟨p.text ++ "/" ++ q⟩

/-- The parts of a path: its steps without those that stay, of which only one in front counts. -/
def parts (p : Path) : List Step :=
  match p.steps with
  | .here :: steps => if p.isAbsolute then steps.filter (· ≠ .here)
      else .here :: steps.filter (· ≠ .here)
  | steps => steps.filter (· ≠ .here)

def fileName? (p : Path) : Option String :=
  p.parts.getLast?.bind Step.name?

/-- The text reversed, without the slashes and the steps that stay at its end. -/
def dropTail : List Char → List Char
  | '/' :: cs => dropTail cs
  | '.' :: '/' :: cs => dropTail cs
  | cs => cs

def parent? (p : Path) : Option Path :=
  if p.parts.isEmpty then none
  else
    let rest := dropTail ((dropTail p.text.toList.reverse).dropWhile (· ≠ '/'))
    if rest.isEmpty && p.isAbsolute then some ⟨"/"⟩ else some ⟨String.ofList rest.reverse⟩

/-- A file name before its last point, and what stands after it. A point in front does not count. -/
def splitName (name : String) : String × Option String :=
  let reversed := name.toList.reverse
  let stem := (reversed.dropWhile (· ≠ '.')).drop 1
  if stem.isEmpty then (name, none)
  else (String.ofList stem.reverse, some (String.ofList (reversed.takeWhile (· ≠ '.')).reverse))

def stem? (p : Path) : Option String :=
  p.fileName?.map fun name => (splitName name).1

def extension? (p : Path) : Option String :=
  p.fileName?.bind fun name => (splitName name).2

def withExtension (p : Path) (extension : String) : Path :=
  match p.fileName? with
  | none => p
  | some name =>
    let before := (dropTail p.text.toList.reverse).dropWhile (· ≠ '/')
    ⟨String.ofList before.reverse ++ (splitName name).1 ++ "." ++ extension⟩

end Path

end Narrative
