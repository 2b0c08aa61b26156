import Narrative.Chance
import Narrative.Expr.Token
import Narrative.Value.Access
import Narrative.Verb

/-! What a directive acts on, how it calls verbs, and how it can fail. -/

namespace Narrative

/-- What verbs and expressions can change: the state and the source of chance. -/
structure Scene where
  state : State
  chance : Chance

/-- Calls to verbs by name: the verb's words or its error, and the scene that it leaves. -/
abbrev Call := String → List Value → Scene → Except VerbError String × Scene

inductive EvalError where
  | parse (e : ParseError)
  | unknownVariable (name : String)
  | unknownFunction (name : String)
  | type (e : TypeError)
  | divisionByZero
  | overflow
  | verb (e : VerbError)
  deriving DecidableEq

def EvalError.message : EvalError → String
  | .parse e => e.message
  | .unknownVariable name => "'" ++ name ++ "' is undefined"
  | .unknownFunction name => "unknown function '" ++ name ++ "'"
  | .type e => "type error: " ++ e.message
  | .divisionByZero => "division by zero"
  | .overflow => "integer overflow"
  | .verb e => e.message

namespace State

def ofInts (d : Dict Int64) : Value :=
  .map (d.mapValues .int).entries

def ofFlags (d : Dict Flag) : Value :=
  .map (d.mapValues Value.ofFlag).entries

def shownNames : List String :=
  ["player", "flags", "time", "inventory", "quests", "relationships"]

def shown? (s : State) (name : String) : Option Value :=
  match name with
  | "player" =>
    some (.map
      [("gold", .int s.player.gold), ("health", .int s.player.health),
        ("kinks", ofFlags s.player.kinks), ("max_health", .int s.player.maxHealth),
        ("name", .text s.player.name), ("skills", ofInts s.player.skills),
        ("stats", ofInts s.player.stats)])
  | "flags" => some (ofFlags s.flags)
  | "time" => some (.clock s.time)
  | "inventory" =>
    some (.list (s.inventory.map fun i =>
      .map [("count", .int (Int64.ofNat i.count.toNat)), ("id", .text i.id)]))
  | "quests" =>
    some (.map (s.quests.mapValues fun q =>
      .map [("completed", .bool q.completed), ("stage", .int q.stage)]).entries)
  | "relationships" => some (ofInts s.relationships)
  | _ => none

end State

end Narrative
