import Narrative.Addon
import Narrative.Storage.Disk

/-! Installing an add-on from an archive. The manifest stands at the top of the archive, or in the
one directory that all of it is in and that is then left out. What cannot be read of an archive is
passed over when the manifest is looked for, and is found out when the entries are written. -/

namespace Narrative

inductive AddonError where
  | io (fault : DiskFault)
  | archive
  | noManifest
  | badArchiveName (path : Path)
  | unknown (id : String)
  deriving DecidableEq

namespace AddonError

def message : AddonError → String
  | .io fault => "IO error: " ++ fault.message
  | .archive => "archive error: cannot be opened"
  | .noManifest => "no " ++ manifestName ++ " found in archive"
  | .badArchiveName path => "cannot derive an add-on id from " ++ path.text
  | .unknown id => "unknown add-on '" ++ id ++ "'"

end AddonError

namespace Path

/-- How deep steps lead at their end, if they never lead out of where they start. -/
def depth? : Nat → List Step → Option Nat
  | n, [] => some n
  | n, .here :: ss => depth? n ss
  | 0, .up :: _ => none
  | n + 1, .up :: ss => depth? n ss
  | n, .name _ :: ss => depth? (n + 1) ss

/-- Whether a path stays inside the directory that it is followed from. -/
def isEnclosed (p : Path) : Bool :=
  !p.isAbsolute && !p.text.toList.contains '\x00' && (depth? 0 p.parts).isSome

end Path

/-- What is read of an entry that can be opened, and whether that is all of it. -/
def Packed.opened? : Packed → Option (Content × Bool)
  | .whole c => some (c, true)
  | .cut part => some (part, false)
  | .shut => none

/-- An entry of an archive: its path, whether it is a directory, and what of it can be read. -/
structure ArchiveEntry where
  path : Path
  isDir : Bool
  content : Content
  isWhole : Bool

namespace ArchiveEntry

/-- The entry of a name, if it can be opened and the name does not lead out of the archive. -/
def ofNamed? (e : String × Packed) : Option ArchiveEntry := do
  let (content, isWhole) ← e.2.opened?
  let path : Path := ⟨e.1⟩
  let isDir := e.1.toList.getLast? = some '/' || e.1.toList.getLast? = some '\\'
  if path.isEnclosed then some ⟨path, isDir, content, isWhole⟩ else none

/-- The entries that are there to be looked at: those that can be opened and stay in the archive. -/
def listed (es : List (String × Packed)) : List ArchiveEntry :=
  es.filterMap ofNamed?

end ArchiveEntry

namespace Archive

/-- The directory of an archive that counts as its top: none if the manifest is not in one. -/
inductive Top where
  | root
  | folder (step : Step)

def top? (paths : List Path) : Option Top :=
  let manifest := Step.name manifestName
  if paths.any fun p => p.parts = [manifest] then some .root
  else
    match (paths.filterMap fun p => p.parts.head?).eraseDups with
    | [folder] => if paths.any fun p => p.parts = [folder, manifest]
        then some (.folder folder) else none
    | _ => none

/-- The path of an entry below the top, if it is below. -/
def Top.relative? (t : Top) (p : Path) : Option Path :=
  match t with
  | .root => some p
  | .folder step =>
    match p.parts with
    | s :: t :: rest => if s = step then some (Path.ofSteps (t :: rest)) else none
    | _ => none

end Archive

namespace Addon

def idOfArchive? (archive : Path) : Option String :=
  archive.stem?.filter fun s => !s.isEmpty && s.toList.head? ≠ some '.'

/-- Changes to the file store that fail as add-ons do. -/
abbrev Installing := Storage AddonError

namespace Installing

def disk {α : Type} (a : Storage DiskFault α) : Installing α :=
  a.adapt .io

end Installing

/-- Writes an entry of an archive below a directory. What is read before a fault is written too. -/
def extract (dest : Path) (t : Archive.Top) (e : ArchiveEntry) : Installing Unit :=
  match t.relative? e.path with
  | none => pure ()
  | some relative => do
    let target := dest.join relative.text
    if e.isDir then Installing.disk (Disk.makeDir target)
    else
      match target.parent? with
      | some parent => Installing.disk (Disk.makeDir parent)
      | none => pure ()
      Installing.disk (Disk.write target e.content)
      if !e.isWhole then throw (.io .damaged)

/-- Comes to an entry of an archive. One that leads out of the archive is passed over, once it is
opened. -/
def unpack (dest : Path) (t : Archive.Top) (e : String × Packed) : Installing Unit := do
  if e.2.opened?.isNone then throw .archive
  match ArchiveEntry.ofNamed? e with
  | some entry => extract dest t entry
  | none => pure ()

/-- The entries of an archive file. What is no archive, a directory among it, cannot be opened as
one. -/
def archiveEntries (archive : Path) : Installing (List (String × Packed)) := do
  let d ← get
  if !d.contains archive then throw (.io .missing)
  match d.content archive with
  | .ok (.archive entries) => return entries
  | _ => throw .archive

/-- Installs an archive as an add-on in a directory, in the place of the one that had its id. -/
def install (archive dir : Path) : Installing String := do
  let id ← match idOfArchive? archive with
    | some id => pure id
    | none => throw (.badArchiveName archive)
  let entries ← archiveEntries archive
  let top ← match Archive.top? ((ArchiveEntry.listed entries).map (·.path)) with
    | some top => pure top
    | none => throw .noManifest
  let dest := dir.join id
  if (← get).contains dest then Installing.disk (Disk.removeDir dest)
  Installing.disk (Disk.makeDir dest)
  entries.forM (unpack dest top)
  return id

end Addon

end Narrative
