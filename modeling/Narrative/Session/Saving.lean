import Narrative.Addon.Manager
import Narrative.Addon.Script
import Narrative.Library
import Narrative.Session
import Narrative.Session.Snapshot
import Narrative.Settings
import Narrative.World.Layering

/-! Opening sessions, and saving and loading their state. -/

namespace Narrative

inductive SessionError where
  | io (fault : DiskFault)
  | json
  | addon (e : AddonError)
  | otherGame (expected found : String)
  | noGame (id : String)
  deriving DecidableEq

def SessionError.message : SessionError → String
  | .io fault => "IO error: " ++ fault.message
  | .json => "JSON error: not a saved game"
  | .addon e => "add-on error: " ++ e.message
  | .otherGame expected found =>
    "snapshot belongs to game '" ++ found ++ "', not '" ++ expected ++ "'"
  | .noGame id => "game not found: " ++ id

/-- What a session is built from. A world or a state that is given is used as it is. -/
structure Setup where
  gameId : String
  gameDir : Option Path := none
  addons : List Addon := []
  catalog : Dict Extension := ∅
  seed : UInt64
  world : Option World := none
  state : Option State := none

namespace Setup

/-- The world of a setup: the content of the game under that of the add-ons. -/
def worldOf (x : Setup) (d : Disk) : World :=
  match x.world, x.gameDir with
  | some w, _ => w
  | none, some dir => (Layering.load d dir (x.addons.map (·.path))).world
  | none, none => {}

def build (x : Setup) (d : Disk) : Session × ExtensionReport :=
  let world := x.worldOf d
  let state := x.state.getD (State.opening world.opening)
  let verbs := Extending.load d x.catalog world state x.addons Registry.core
  (⟨x.gameId, world, verbs.registry, ⟨state, ⟨x.seed⟩⟩⟩, verbs.report)

end Setup

namespace Session

/-- Opens a game of the library with the add-ons that are turned on. Without a fixed seed, `seed` is
used. -/
def open? (settings : Settings) (seed : UInt64) (id : String) : Storage SessionError Session := do
  match Library.gamePath? (← get) settings.library id with
  | none => throw (.noGame id)
  | some dir =>
    let m ← (Manager.open? settings.addons settings.addonFile).adapt .addon
    let x : Setup :=
      { gameId := id, gameDir := some dir, addons := m.active, seed := settings.seed.getD seed }
    return (x.build (← get)).1

def snapshot (s : Session) (now : Instant) : Snapshot :=
  ⟨s.gameId, now, s.state⟩

def save (s : Session) (now : Instant) (p : Path) : Storage SessionError Unit :=
  (Disk.replace p (.text (s.snapshot now).write)).adapt .io

end Session

namespace Playing

/-- Goes on with the state of a saved game, if it is of the same game. -/
def restore (saved : Snapshot) : Playing (Except SessionError Unit) := fun s =>
  if saved.gameId = s.gameId then (.ok (), s.setState saved.state)
  else (.error (.otherGame s.gameId saved.gameId), s)

/-- Goes on with the state that is saved in a file. -/
def load (d : Disk) (p : Path) : Playing (Except SessionError Unit) := fun s =>
  match d.readText p with
  | .error fault => (.error (.io fault), s)
  | .ok text =>
    match Snapshot.read text with
    | none => (.error .json, s)
    | some saved => restore saved s

/-- The session after an action, unless the action fails. -/
def outcome {ε : Type} (a : Playing (Except ε Unit)) (s : Session) : Except ε Session :=
  (a s).1.map fun _ => (a s).2

end Playing

namespace Session

def restore (s : Session) (saved : Snapshot) : Except SessionError Session :=
  (Playing.restore saved).outcome s

def load (s : Session) (d : Disk) (p : Path) : Except SessionError Session :=
  (Playing.load d p).outcome s

end Session

end Narrative
