import Narrative.Json.Record
import Narrative.State

/-! The document form of the state. What is missing in a document is as in a new story. -/

namespace Narrative

namespace Clock

def toJson (t : Clock) : Json :=
  .table
    [("year", .int t.year), ("season", .int t.season), ("day", .int t.day), ("hour", .int t.hour),
      ("minute", .int t.minute), ("display", .text t.text), ("is_night", .bool t.isNight)]

/-- The clock of a document. Its text and its night mark are read but not used. -/
def ofJson (d : Json) : Option Clock := do
  match ← d.record? ["year", "season", "day", "hour", "minute", "display", "is_night"] with
  | [year, season, day, hour, minute, display, night] =>
    let year ← Json.orDefault 1 (Json.natUpTo 4294967295) year
    let season ← Json.orDefault 0 (Json.natUpTo 255) season
    let day ← Json.orDefault 1 (Json.natUpTo 4294967295) day
    let hour ← Json.orDefault 8 (Json.natUpTo 4294967295) hour
    let minute ← Json.orDefault 0 (Json.natUpTo 4294967295) minute
    let _ ← Json.orDefault "" Json.text? display
    let _ ← Json.orDefault false Json.bool? night
    some (Clock.ofFields ⟨year, season, day, hour, minute⟩)
  | _ => none

end Clock

namespace Flag

mutual

def toJson : Flag → Json
  | .bool b => .bool b
  | .int n => .int n.toInt
  | .text s => .text s
  | .list items => .list (toJsons items)

def toJsons : List Flag → List Json
  | [] => []
  | f :: fs => f.toJson :: toJsons fs

end

mutual

/-- The flag of a document; floats, nulls and tables are none. -/
def ofJson : Json → Option Flag
  | .bool b => some (.bool b)
  | .int n => (int64? n).map .int
  | .text s => some (.text s)
  | .list items => (ofJsons items).map .list
  | _ => none

def ofJsons : List Json → Option (List Flag)
  | [] => some []
  | d :: ds => do
    let f ← ofJson d
    let fs ← ofJsons ds
    some (f :: fs)

end

end Flag

namespace Dict

def toJson {α : Type} (encode : α → Json) (d : Dict α) : Json :=
  .table (d.mapValues encode).entries

end Dict

namespace Player

def toJson (p : Player) : Json :=
  .table
    [("name", .text p.name), ("gold", .int p.gold.toInt), ("health", .int p.health.toInt),
      ("max_health", .int p.maxHealth.toInt), ("stats", p.stats.toJson fun n => .int n.toInt),
      ("skills", p.skills.toJson fun n => .int n.toInt), ("kinks", p.kinks.toJson Flag.toJson)]

def ofJson (d : Json) : Option Player := do
  let p : Player := {}
  match ← d.record? ["name", "gold", "health", "max_health", "stats", "skills", "kinks"] with
  | [name, gold, health, maxHealth, stats, skills, kinks] =>
    some
      { name := ← Json.orDefault p.name Json.text? name
        gold := ← Json.orDefault p.gold Json.int64? gold
        health := ← Json.orDefault p.health Json.int64? health
        maxHealth := ← Json.orDefault p.maxHealth Json.int64? maxHealth
        stats := ← Json.orDefault p.stats (Json.dictOf Json.int64?) stats
        skills := ← Json.orDefault p.skills (Json.dictOf Json.int64?) skills
        kinks := ← Json.orDefault p.kinks (Json.dictOf Flag.ofJson) kinks }
  | _ => none

end Player

namespace Stack

def toJson (s : Stack) : Json :=
  .table [("id", .text s.id), ("count", .int s.count.toNat)]

def ofJson (d : Json) : Option Stack := do
  match ← d.record? ["id", "count"] with
  | [some id, some count] =>
    let id ← id.text?
    let count ← Json.natUpTo fullStack count
    some ⟨id, UInt32.ofNat count⟩
  | _ => none

end Stack

namespace Quest

def toJson (q : Quest) : Json :=
  .table [("stage", .int q.stage.toInt), ("completed", .bool q.completed)]

def ofJson (d : Json) : Option Quest := do
  match ← d.record? ["stage", "completed"] with
  | [stage, completed] =>
    some
      { stage := ← Json.orDefault 0 Json.int64? stage
        completed := ← Json.orDefault false Json.bool? completed }
  | _ => none

end Quest

namespace State

def toJson (s : State) : Json :=
  .table
    [("player", s.player.toJson), ("inventory", .list (s.inventory.map Stack.toJson)),
      ("flags", s.flags.toJson Flag.toJson),
      ("relationships", s.relationships.toJson fun n => .int n.toInt),
      ("quests", s.quests.toJson Quest.toJson), ("time", s.time.toJson),
      ("current_location_id", .text s.location), ("history", .list (s.history.map .text))]

def ofJson (d : Json) : Option State := do
  let s : State := {}
  let names := ["player", "inventory", "flags", "relationships", "quests", "time",
    "current_location_id", "history"]
  match ← d.record? names with
  | [player, inventory, flags, relationships, quests, time, location, history] =>
    some
      { player := ← Json.orDefault s.player Player.ofJson player
        inventory := ← Json.orDefault s.inventory (Json.listOf Stack.ofJson) inventory
        flags := ← Json.orDefault s.flags (Json.dictOf Flag.ofJson) flags
        relationships := ← Json.orDefault s.relationships (Json.dictOf Json.int64?) relationships
        quests := ← Json.orDefault s.quests (Json.dictOf Quest.ofJson) quests
        time := ← Json.orDefault s.time Clock.ofJson time
        location := ← Json.orDefault s.location Json.text? location
        history := ← Json.orDefault s.history (Json.listOf Json.text?) history }
  | _ => none

end State

namespace Opening

def toJson (o : Opening) : Json :=
  let text (v : Option String) : Json := (v.map Json.text).getD .null
  let int (v : Option Int64) : Json := (v.map fun n => Json.int n.toInt).getD .null
  .table
    [("location", text o.location), ("name", text o.name), ("gold", int o.gold),
      ("health", int o.health), ("max_health", int o.maxHealth),
      ("flags", o.flags.toJson Flag.toJson)]

def names : List String :=
  ["location", "name", "gold", "health", "max_health", "flags"]

def ofFields : List (Option Json) → Option Opening
  | [location, name, gold, health, maxHealth, flags] => do
    some
      { location := ← Json.orDefault none (Json.nullable Json.text?) location
        name := ← Json.orDefault none (Json.nullable Json.text?) name
        gold := ← Json.orDefault none (Json.nullable Json.int64?) gold
        health := ← Json.orDefault none (Json.nullable Json.int64?) health
        maxHealth := ← Json.orDefault none (Json.nullable Json.int64?) maxHealth
        flags := ← Json.orDefault ∅ (Json.dictOf Flag.ofJson) flags }
  | _ => none

def ofJson (d : Json) : Option Opening :=
  (d.record? names).bind ofFields

end Opening

end Narrative
