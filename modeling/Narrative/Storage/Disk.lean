import Narrative.Storage.Path
import Narrative.Storage.Tree

/-! The file store: what paths lead to, and the changes that programs make to it. A change that
fails part of the way leaves what it did before. A name of a file has a greatest length. A path has
none, the store is never full, and whoever works with it may read and write all of it. -/

namespace Narrative

inductive DiskFault where
  | missing
  | notDirectory
  | isDirectory
  | notText
  | badName
  | damaged
  deriving DecidableEq

def DiskFault.message : DiskFault → String
  | .missing => "no such file or directory"
  | .notDirectory => "not a directory"
  | .isDirectory => "is a directory"
  | .notText => "not UTF-8 text"
  | .badName => "unusable file name"
  | .damaged => "damaged data"

/-- A directory tree and the location of the working directory in it. -/
structure Disk where
  root : Tree
  working : List String
  deriving Inhabited

/-- An action on the file store that can fail; what it did before it failed stays done. -/
abbrev Storage (ε : Type) := ExceptT ε (StateM Disk)

namespace Disk

/-- The longest name that an entry can have, in bytes. -/
def longestName : Nat := 255

def isUsable (name : String) : Bool :=
  name.utf8ByteSize ≤ longestName && !name.toList.contains '\x00'

def start (d : Disk) (p : Path) : List String :=
  if p.isAbsolute then [] else d.working

def isDirAt (d : Disk) (loc : List String) : Bool :=
  ((d.root.at? loc).map Tree.isDir).getD false

/-- The location to which steps lead from `loc`, all of them through directories that exist. -/
def walk (d : Disk) (loc : List String) : List Step → Except DiskFault (List String)
  | [] => .ok loc
  | s :: ss =>
    if d.isDirAt loc then
      match s with
      | .here => d.walk loc ss
      | .up => d.walk loc.dropLast ss
      | .name n =>
        if (d.root.at? (loc ++ [n])).isSome then d.walk (loc ++ [n]) ss else .error .missing
    else .error .notDirectory

def locate (d : Disk) (p : Path) : Except DiskFault (List String) :=
  if p.steps.isEmpty && !p.isAbsolute then .error .missing
  else d.walk (d.start p) (if p.endsInSlash then p.steps ++ [.here] else p.steps)

def find? (d : Disk) (p : Path) : Option Tree :=
  match d.locate p with
  | .ok loc => d.root.at? loc
  | .error _ => none

def contains (d : Disk) (p : Path) : Bool :=
  (d.find? p).isSome

def isDir (d : Disk) (p : Path) : Bool :=
  ((d.find? p).map Tree.isDir).getD false

def isFile (d : Disk) (p : Path) : Bool :=
  ((d.find? p).map (!·.isDir)).getD false

def names (d : Disk) (p : Path) : Except DiskFault (List String) := do
  match d.root.at? (← d.locate p) with
  | some (.dir es) => .ok (es.map (·.1))
  | some (.file _) => .error .notDirectory
  | none => .error .missing

def content (d : Disk) (p : Path) : Except DiskFault Content := do
  match d.root.at? (← d.locate p) with
  | some (.file c) => .ok c
  | some (.dir _) => .error .isDirectory
  | none => .error .missing

def readText (d : Disk) (p : Path) : Except DiskFault String := do
  match ← d.content p with
  | .text s => .ok s
  | _ => .error .notText

/-- The directory in which a file of this path is or would be, and its name there. -/
def slot (d : Disk) (p : Path) : Except DiskFault (List String × String) :=
  match p.steps.getLast? with
  | some (.name n) => do
    if p.endsInSlash then .error .isDirectory
    let loc ← d.walk (d.start p) p.steps.dropLast
    if !d.isDirAt loc then .error .notDirectory
    else if isUsable n then .ok (loc, n)
    else .error .badName
  | some _ => .error .isDirectory
  | none => if p.isAbsolute then .error .isDirectory else .error .missing

def put (d : Disk) (loc : List String) (t : Tree) : Disk :=
  { d with root := Tree.put t loc d.root }

def erase (d : Disk) (loc : List String) : Disk :=
  { d with root := d.root.remove loc }

def look {α : Type} (f : Disk → Except DiskFault α) : Storage DiskFault α := do
  match f (← get) with
  | .ok a => return a
  | .error e => throw e

/-- Makes the directories along steps that are missing. What only `.` follows is not made. -/
def makeDirs (loc : List String) : List Step → Storage DiskFault Unit
  | [] => do
    if !(← get).isDirAt loc then throw .notDirectory
  | s :: ss => do
    let d ← get
    if !d.isDirAt loc then throw .notDirectory
    match s with
    | .here => makeDirs loc ss
    | .up => makeDirs loc.dropLast ss
    | .name n =>
      if (d.root.at? (loc ++ [n])).isNone then
        if !ss.isEmpty && ss.all (· = .here) then throw .missing
        if !isUsable n then throw .badName
        set (d.put (loc ++ [n]) (.dir []))
      makeDirs (loc ++ [n]) ss

/-- Makes a directory and those that lead to it, unless they are there. -/
def makeDir (p : Path) : Storage DiskFault Unit := do
  if p.steps.isEmpty && !p.isAbsolute then return
  if p.text.toList.contains '\x00' then throw .badName
  makeDirs ((← get).start p) p.steps

def write (p : Path) (c : Content) : Storage DiskFault Unit := do
  let (loc, n) ← look (·.slot p)
  let d ← get
  if d.isDirAt (loc ++ [n]) then throw .isDirectory
  set (d.put (loc ++ [n]) (.file c))

def rename (p q : Path) : Storage DiskFault Unit := do
  let c ← look (·.content p)
  let (loc, n) ← look (·.slot p)
  let (loc', n') ← look (·.slot q)
  let d ← get
  if d.isDirAt (loc' ++ [n']) then throw .isDirectory
  set ((d.erase (loc ++ [n])).put (loc' ++ [n']) (.file c))

/-- Writes a file through another one, so that its path never leads to a part of it. -/
def replace (p : Path) (c : Content) : Storage DiskFault Unit := do
  let draft := p.withExtension "json.tmp"
  match p.parent? with
  | some parent => makeDir parent
  | none => pure ()
  write draft c
  rename draft p

def removeDir (p : Path) : Storage DiskFault Unit := do
  let (loc, n) ← look (·.slot p)
  let d ← get
  match d.root.at? (loc ++ [n]) with
  | some (.dir _) => set (d.erase (loc ++ [n]))
  | some (.file _) => throw .notDirectory
  | none => throw .missing

def files (d : Disk) (p : Path) : List String :=
  match d.find? p with
  | some (.dir es) => (Tree.dir es).files p.text
  | _ => []

end Disk

end Narrative
