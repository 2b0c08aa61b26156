import Narrative.Addon.Install
import Narrative.Json.Reader
import Narrative.Json.Writer
import Narrative.State.Json
import Narrative.Toml

/-! The manager of the add-ons in one directory. It knows the add-ons that it found there, and keeps
what the player chose for them in a file. -/

namespace Narrative

/-- The manager of a directory of add-ons: the choices that it read or wrote last, and the add-ons
that it found last, by id. -/
structure Manager where
  dir : Path
  file : Path
  preferences : Dict Preference := ∅
  addons : Dict Addon := ∅

/-- An action of a manager on the file store. What it did before it failed stays done in both. -/
abbrev Managing := ExceptT AddonError (StateT Manager (StateM Disk))

namespace Managing

variable {α : Type}

def installing (a : Addon.Installing α) : Managing α := fun m d =>
  let (r, d) := a d
  ((r, m), d)

def disk (a : Storage DiskFault α) : Managing α :=
  installing (Addon.Installing.disk a)

end Managing

namespace Manager

def readPreferences (d : Disk) (file : Path) : Dict Preference :=
  match d.readText file with
  | .ok s => (((Json.read s).bind (Json.dictOf Preference.ofJson)).getD ∅)
  | .error _ => ∅

def readManifest (d : Disk) (p : Path) : Option Manifest :=
  match d.readText p with
  | .ok s => (Toml.read s).bind Manifest.ofJson
  | .error _ => none

/-- The add-on in an entry of a directory of add-ons, if it is one. -/
def find? (d : Disk) (dir : Path) (preferences : Dict Preference) (name : String) : Option Addon :=
  let root := dir.join name
  if d.isFile (root.join manifestName) then
    (readManifest d (root.join manifestName)).map fun m =>
      Addon.ofManifest name root m (preferences.getD name {})
  else none

def findAll (d : Disk) (dir : Path) (preferences : Dict Preference) (names : List String) :
    Dict Addon :=
  Dict.ofList ((names.filterMap (find? d dir preferences)).map fun a => (a.id, a))

def discover : Managing Unit := do
  let m ← get
  Managing.disk (Disk.makeDir m.dir)
  set { m with addons := ∅ }
  let d ← Managing.disk get
  let names ← Managing.disk (Disk.look (·.names m.dir))
  set { m with addons := findAll d m.dir m.preferences names }

/-- A manager of a directory, which is made if it is missing, with its choices in a file. -/
def open? (dir file : Path) : Storage AddonError Manager := fun d =>
  let m : Manager := { dir, file, preferences := readPreferences d file }
  let ((r, m), d) := discover m d
  (r.map fun _ => m, d)

def all (m : Manager) : List Addon :=
  m.addons.values.mergeSort Addon.before

def get? (m : Manager) (id : String) : Option Addon :=
  m.addons.get? id

/-- The add-ons that are turned on, in the order in which they are loaded: the last one wins. -/
def active (m : Manager) : List Addon :=
  m.all.filter (·.preference.enabled)

def known (id : String) : Managing Addon := do
  match (← get).get? id with
  | some a => return a
  | none => throw (.unknown id)

/-- Writes the choices for all add-ons that are known, in the place of those that were there. -/
def save : Managing Unit := do
  let m ← get
  let preferences := m.addons.mapValues (·.preference)
  set { m with preferences }
  Managing.disk (Disk.replace m.file (.text (preferences.toJson Preference.toJson).pretty))

def choose (id : String) (f : Preference → Preference) : Managing Unit := do
  let a ← known id
  modify fun m => { m with addons := m.addons.insert id { a with preference := f a.preference } }
  save

def toggle (id : String) (enabled : Bool) : Managing Unit :=
  choose id fun p => { p with enabled }

def setPriority (id : String) (priority : Int64) : Managing Unit :=
  choose id fun p => { p with priority }

def delete (id : String) : Managing Unit := do
  let a ← known id
  Managing.disk (Disk.removeDir a.path)
  modify fun m => { m with addons := m.addons.erase id }
  save

def install (archive : Path) : Managing String := do
  let id ← Managing.installing (Addon.install archive (← get).dir)
  discover
  return id

end Manager

end Narrative
