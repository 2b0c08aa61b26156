import Narrative.Json.Record
import Narrative.Json.Scalar
import Narrative.Storage.Path

/-! Add-ons: what their manifests say, and what the player chose for them. -/

namespace Narrative

/-- The file that makes a directory or an archive an add-on. -/
def manifestName : String := "mod.toml"

structure Manifest where
  name : Option String := none
  title : Option String := none
  version : Option String := none
  author : Option String := none
  description : Option String := none

structure Preference where
  enabled : Bool := false
  priority : Int64 := 0
  deriving DecidableEq, Inhabited

structure Addon where
  id : String
  name : String
  version : String
  author : String
  description : String
  preference : Preference
  path : Path

namespace Manifest

def metadataOfJson (d : Json) : Option Manifest := do
  match ← d.openRecord? ["name", "title", "version", "author", "description"] with
  | [name, title, version, author, description] =>
    some
      { name := ← Json.orDefault none (Json.nullable Json.text?) name
        title := ← Json.orDefault none (Json.nullable Json.text?) title
        version := ← Json.orDefault none Json.scalarText? version
        author := ← Json.orDefault none (Json.nullable Json.text?) author
        description := ← Json.orDefault none (Json.nullable Json.text?) description }
  | _ => none

def ofJson (d : Json) : Option Manifest := do
  match ← d.record? ["metadata"] with
  | [metadata] => Json.orDefault {} metadataOfJson metadata
  | _ => none

end Manifest

namespace Preference

def toJson (p : Preference) : Json :=
  .table [("enabled", .bool p.enabled), ("priority", .int p.priority.toInt)]

def ofJson (d : Json) : Option Preference := do
  match ← d.record? ["enabled", "priority"] with
  | [enabled, priority] =>
    some
      { enabled := ← Json.orDefault false Json.bool? enabled
        priority := ← Json.orDefault 0 Json.int64? priority }
  | _ => none

end Preference

namespace Addon

def plain (id : String) (path : Path) (p : Preference) : Addon :=
  ⟨id, id, "1.0", "Unknown", "", p, path⟩

def ofManifest (id : String) (path : Path) (m : Manifest) (p : Preference) : Addon :=
  let a := plain id path p
  { a with
    name := m.name.getD (m.title.getD a.name)
    version := m.version.getD a.version
    author := m.author.getD a.author
    description := m.description.getD a.description }

/-- The order in which add-ons are loaded: by ascending priority, and by id among equals. -/
def before (a b : Addon) : Bool :=
  a.preference.priority < b.preference.priority
    || (a.preference.priority = b.preference.priority && a.id ≤ b.id)

end Addon

end Narrative
