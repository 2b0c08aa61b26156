import Narrative.Dict

/-! Directory trees. A location in a tree is the list of names that lead to it from the top. -/

namespace Narrative

mutual

/-- What a file holds. The entries of an archive have names that are paths. -/
inductive Content where
  | text (s : String)
  | binary (bytes : List UInt8)
  | archive (entries : List (String × Packed))

/-- What can be got out of an archive for an entry: all that it holds, a part of it before reading
fails, or nothing, since the entry cannot be opened. -/
inductive Packed where
  | whole (c : Content)
  | cut (part : Content)
  | shut

end

instance : Inhabited Content := ⟨.text ""⟩

instance : Coe Content Packed := ⟨.whole⟩

/-- The archive of entries that can all be read. -/
def Content.ofEntries (es : List (String × Content)) : Content :=
  .archive (es.map fun e => (e.1, .whole e.2))

inductive Tree where
  | file (c : Content)
  | dir (entries : List (String × Tree))
  deriving Inhabited

namespace Tree

def entries : Tree → List (String × Tree)
  | file _ => []
  | dir es => es

def isDir : Tree → Bool
  | dir _ => true
  | file _ => false

def content? : Tree → Option Content
  | file c => some c
  | dir _ => none

def child? (t : Tree) (name : String) : Option Tree :=
  (t.entries.find? (·.1 = name)).map (·.2)

def setChild (t : Tree) (name : String) (new : Tree) : Tree :=
  dir (Dict.place name new t.entries)

def at? : List String → Tree → Option Tree
  | [], t => some t
  | x :: loc, t => (t.child? x).bind (at? loc)

/-- Puts a tree at a location, with the directories that lead to it. -/
def put (new : Tree) : List String → Tree → Tree
  | [], _ => new
  | x :: loc, t => t.setChild x (put new loc ((t.child? x).getD (dir [])))

def remove : List String → Tree → Tree
  | [], t => t
  | [x], t => dir (t.entries.filter (·.1 ≠ x))
  | x :: loc, t =>
    match t.child? x with
    | some c => t.setChild x (remove loc c)
    | none => t

mutual

/-- The files of a tree, each with the path to it, and the directories that have no entries. -/
def files (path : String) : Tree → List String
  | file _ => [path]
  | dir [] => [path ++ "/"]
  | dir es => entryFiles (if path.toList.getLast? = some '/' then path else path ++ "/") es

def entryFiles (path : String) : List (String × Tree) → List String
  | [] => []
  | (name, t) :: es => t.files (path ++ name) ++ entryFiles path es

end

theorem child?_setChild (t new : Tree) (x y : String) :
    (t.setChild x new).child? y = if y = x then some new else t.child? y := by
  simp only [setChild, child?, entries, Dict.find?_place]
  split <;> rfl

end Tree

end Narrative
