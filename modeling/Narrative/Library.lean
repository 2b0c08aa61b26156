import Narrative.World.Source

/-! The library: a directory with a directory for each installed game. -/

namespace Narrative

structure GameInfo where
  id : String
  title : String
  author : String
  version : String
  description : String
  thumbnail : Option String
  path : Path

namespace GameInfo

def ofMetadata (id : String) (path : Path) (m : WorldMetadata) : GameInfo where
  id := id
  title := m.title.getD id
  author := m.author.getD "Unknown"
  version := m.version.getD "1.0"
  description := m.description.getD "No description."
  thumbnail := m.thumbnail
  path := path

end GameInfo

namespace Library

def metadata (d : Disk) (root : Path) : WorldMetadata :=
  match d.readWorldFile root with
  | .ok (some file) => file.metadata
  | _ => {}

/-- The games in a directory, by ascending id. -/
def scan (d : Disk) (dir : Path) : List GameInfo :=
  let names := match d.names dir with
    | .ok names => names
    | .error _ => []
  let ids := (names.mergeSort fun a b => decide (a ≤ b)).filter fun id => d.isDir (dir.join id)
  ids.map fun id => GameInfo.ofMetadata id (dir.join id) (metadata d (dir.join id))

/-- Whether an id is written as one step that is not hidden. -/
def isPlainId (id : String) : Bool :=
  let p : Path := ⟨id⟩
  p.parts.length + (if p.isAbsolute then 1 else 0) = 1 && id.toList.head? ≠ some '.'

def gamePath? (d : Disk) (dir : Path) (id : String) : Option Path :=
  let path := dir.join id
  if isPlainId id && d.isDir path then some path else none

end Library

end Narrative
