import Narrative.Registry
import Narrative.World

/-! Play sessions: a world, its verbs and a scene. What the player does changes the scene alone. -/

namespace Narrative

structure Session where
  gameId : String
  world : World
  registry : Registry
  scene : Scene

/-- What happens in a session: an answer, and the session after it. -/
abbrev Playing := StateM Session

/-- How an action ended, with words for the player. -/
inductive Status where
  | ok (message : Option String)
  | error (message : String)
  deriving DecidableEq

def Status.message? : Status → Option String
  | .ok m => m
  | .error m => some m

inductive ChoiceKind where
  | travel
  | function
  deriving DecidableEq

def ChoiceKind.name : ChoiceKind → String
  | .travel => "travel"
  | .function => "function"

structure Choice where
  text : String
  /-- The place or the call. -/
  action : Option String
  kind : ChoiceKind

structure Presence where
  id : String
  name : String
  description : String

structure Place where
  id : String
  name : String
  description : String
  image : Option String
  choices : List Choice
  presences : List Presence

inductive Screen where
  | place (p : Place)
  | nowhere (location : String)

def Screen.missing (location : String) : String :=
  "Location " ++ location ++ " not found"

namespace Session

def state (s : Session) : State :=
  s.scene.state

def setState (s : Session) (state : State) : Session :=
  { s with scene := { s.scene with state } }

/-- The value of the name `location`: the entity of the place where the player is. -/
def locationValue (s : Session) : Value :=
  match s.world.get? .location s.state.location with
  | some e => Value.ofJson e.fields.toJson
  | none => .none

def env (s : Session) : Env :=
  s.registry.env ((∅ : Scope).insert "location" s.locationValue)

def parse (text : String) : Playing String := fun s =>
  let (out, stage) := (s.env.render text).run ⟨[∅], s.scene⟩
  (out, { s with scene := stage.scene })

def execute (verb : String) (args : List Value) : Playing (Except VerbError String) := fun s =>
  let (r, scene) := s.registry.call verb args s.scene
  (r, { s with scene })

/-- Whether a condition holds; one that has no value does not. -/
def holds (condition : String) : Playing Bool := fun s =>
  let (r, scene) := (s.env.condition [∅] condition).run s.scene
  (match r with | .ok b => b | .error _ => false, { s with scene })

/-- The text of a description: one text, or one for the night and one for the day. -/
def descriptionText (night : Bool) : Option Json → String
  | some (.text s) => s
  | some (.table variants) =>
    let named := Json.field? (if night then "night" else "day") variants
    let first := variants.head?.map (·.2)
    (((named.or (Json.field? "default" variants)).or first).bind Json.text?).getD ""
  | _ => "No description."

def describe (place : Entity) : Playing String := do
  parse (descriptionText (← get).state.time.isNight (place.get? "description"))

/-- The choice that a document stands for, unless its condition does not hold. -/
def choice (d : Json) : Playing (Option Choice) :=
  match d with
  | .table fields => do
    let text? (name : String) := (Json.field? name fields).bind Json.text?
    let shown ← match text? "condition" with
      | some condition => holds condition
      | none => pure true
    if shown then
      let text ← parse ((text? "text").getD "Go")
      let kind := if text? "type" = some "function" then ChoiceKind.function else .travel
      return some ⟨text, text? "target", kind⟩
    else return none
  | _ => return none

def presence (id : String) : Playing (Option Presence) := do
  match (← get).world.get? .npc id with
  | none => return none
  | some e =>
    let description ← parse ((e.text? "description").getD "")
    return some ⟨id, (e.text? "name").getD id, description⟩

/-- Renders what the player sees. Its directives can change the state. -/
def render : Playing Screen := do
  let location := (← get).state.location
  match (← get).world.get? .location location with
  | none => return .nowhere location
  | some e =>
    let description ← describe e
    let choices ← (((e.get? "choices").bind Json.list?).getD []).filterMapM choice
    let presences ← (e.texts "npcs").filterMapM presence
    return .place
      { id := location
        name := (e.text? "name").getD "Unknown"
        description
        image := e.text? "image"
        choices
        presences }

def verbName (head : String) : String :=
  String.ofList (head.toList.takeWhile (· ≠ '('))

/-- Runs a call and keeps what it says in the history. -/
def runCall (call : String) : Playing Status := fun s =>
  let (r, scene) := ((s.registry.env ∅).evalText [∅] call).run s.scene
  let s := { s with scene }
  match r with
  | .error e => (.error e.message, s)
  | .ok v =>
    if v.display.isEmpty then (.ok none, s)
    else (.ok (some v.display), s.setState (s.state.record v.display))

def runFunction (payload : String) : Playing Status := do
  let s ← get
  match Shorthand.words payload with
  | [] => return .error "Missing function payload"
  | head :: _ =>
    if s.registry.contains (verbName head) then
      runCall ((Shorthand.call? s.registry.contains payload).getD payload)
    else return .error (VerbError.notFound (verbName head)).message

/-- Goes to a place, whether there is one or not. -/
def travel (target : String) : Playing Status := do
  if target.isEmpty then return .error "Missing travel target"
  else
    modify fun s => s.setState { s.state with location := target }
    return .ok none

def act (kind : String) (payload : Option String) : Playing Status :=
  match kind with
  | "travel" => travel (payload.getD "")
  | "function" => runFunction (payload.getD "")
  | _ => return .error "Unknown action"

end Session

end Narrative
