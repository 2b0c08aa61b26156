import Narrative.Json.Scalar
import Narrative.State.Json
import Narrative.World

/-! The document form of what a game says about itself. -/

namespace Narrative

namespace WorldMetadata

def names : List String :=
  ["title", "author", "version", "description", "thumbnail"]

def ofJson (d : Json) : Option WorldMetadata := do
  let fields ← d.table?
  let text (name : String) : Option (Option String) :=
    Json.orDefault none (Json.nullable Json.text?) (Json.field? name fields)
  some
    { title := ← text "title"
      author := ← text "author"
      version := ← Json.orDefault none Json.scalarText? (Json.field? "version" fields)
      description := ← text "description"
      thumbnail := ← text "thumbnail"
      extra := Dict.ofList (Json.normalFields (fields.filter fun f => !names.contains f.1)) }

end WorldMetadata

structure WorldFile where
  metadata : WorldMetadata := {}
  opening : Opening := {}

namespace WorldFile

def ofJson (d : Json) : Option WorldFile := do
  match ← d.record? ["metadata", "start"] with
  | [metadata, opening] =>
    some
      { metadata := ← Json.orDefault {} WorldMetadata.ofJson metadata
        opening := ← Json.orDefault {}
          (fun d => (d.openRecord? Opening.names).bind Opening.ofFields) opening }
  | _ => none

end WorldFile

end Narrative
