import Narrative.Instant
import Narrative.Json.Reader
import Narrative.Json.Writer
import Narrative.State.Json

/-! Saved games: the state of a story with the game that it belongs to and when it was saved. -/

namespace Narrative

structure Snapshot where
  gameId : String
  time : Instant
  state : State

namespace Snapshot

def toJson (s : Snapshot) : Json :=
  .table [("gameId", .text s.gameId), ("timestamp", .text s.time.text), ("state", s.state.toJson)]

def ofJson (d : Json) : Option Snapshot := do
  match ← d.record? ["gameId", "timestamp", "state"] with
  | [some gameId, some time, some state] =>
    some ⟨← gameId.text?, ← time.text?.bind Instant.read, ← State.ofJson state⟩
  | _ => none

def write (s : Snapshot) : String :=
  s.toJson.pretty

def read (text : String) : Option Snapshot :=
  (Json.read text).bind ofJson

end Snapshot

end Narrative
