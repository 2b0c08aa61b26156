import Narrative.Json.Reader
import Narrative.Ron.Reader
import Narrative.Storage.Disk
import Narrative.Toml
import Narrative.World.Json

/-! Content files: the formats that they can have, and reading them. -/

namespace Narrative

inductive Format where
  | toml
  | ron
  | json
  deriving DecidableEq

namespace Format

def ofExtension? : String → Option Format
  | "toml" => some .toml
  | "ron" => some .ron
  | "json" => some .json
  | _ => none

def read? (f : Format) (text : String) : Option Json :=
  match f with
  | .toml => Toml.read text
  | .ron => (Ron.read text).bind Ron.toJson?
  | .json => Json.read text

/-- The format of a file. One whose extension says nothing is read as TOML. -/
def ofPath (p : Path) : Format :=
  (p.extension?.bind ofExtension?).getD .toml

end Format

inductive DocumentError where
  | io (path : Path) (fault : DiskFault)
  | malformed (path : Path) (format : Format)
  | notTable (path : Path)
  | badId (path : Path)
  deriving DecidableEq

namespace DocumentError

def malformedText : Format → String
  | .toml => "TOML error in "
  | .ron => "RON error in "
  | .json => "JSON error in "

def message : DocumentError → String
  | .io path fault => "IO error reading " ++ path.text ++ ": " ++ fault.message
  | .malformed path format => malformedText format ++ path.text ++ ": not such a document"
  | .notTable path => path.text ++ ": document is not a table"
  | .badId path => path.text ++ ": 'id' must be a string or a number"

end DocumentError

namespace Disk

def sourceText (d : Disk) (p : Path) : Except DocumentError String :=
  match d.readText p with
  | .ok s => .ok s
  | .error fault => .error (.io p fault)

def readDocument (d : Disk) (p : Path) : Except DocumentError Document := do
  let text ← d.sourceText p
  match (Format.ofPath p).read? text with
  | none => .error (.malformed p (Format.ofPath p))
  | some doc =>
    match Document.ofJson? doc with
    | some doc => .ok doc
    | none => .error (.notTable p)

def readEntities (d : Disk) (p : Path) : Except DocumentError (List (String × Entity)) := do
  match Entity.split? (← d.readDocument p) with
  | some entities => .ok entities
  | none => .error (.badId p)

def worldFileName : String := "world.toml"

def readWorldFile (d : Disk) (root : Path) : Except DocumentError (Option WorldFile) :=
  let p := root.join worldFileName
  if d.isFile p then do
    let text ← d.sourceText p
    match (Toml.read text).bind WorldFile.ofJson with
    | some file => .ok (some file)
    | none => .error (.malformed p .toml)
  else .ok none

def documentFiles (d : Disk) (dir : Path) : List Path :=
  let names := match d.names dir with
    | .ok names => names
    | .error _ => []
  let paths := (names.mergeSort fun a b => decide (a ≤ b)).map dir.join
  paths.filter fun p => (p.extension?.bind Format.ofExtension?).isSome && d.isFile p

end Disk

end Narrative
