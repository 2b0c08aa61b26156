import Narrative.Json.Record
import Narrative.Storage.Disk
import Narrative.Text.Blank
import Narrative.Toml

/-! Settings: where games, add-ons and saved games are. They come from a file, and variables of the
environment override it. -/

namespace Narrative

structure Settings where
  /-- The directory with a directory for each game. -/
  library : Path := ⟨"library"⟩
  addons : Path := ⟨"mods"⟩
  /-- The file with what the player chose for the add-ons. -/
  addonFile : Path := ⟨"mods_config.json"⟩
  saves : Path := ⟨"saves"⟩
  /-- The seed of chance, if it is fixed. -/
  seed : Option UInt64 := none

inductive SettingsError where
  | io (path : Path) (fault : DiskFault)
  | malformed (path : Path)
  | badSeed (key value : String)
  deriving DecidableEq

def SettingsError.message : SettingsError → String
  | .io path fault => "IO error reading " ++ path.text ++ ": " ++ fault.message
  | .malformed path => "TOML error in " ++ path.text ++ ": not a settings file"
  | .badSeed key value => key ++ " must be an unsigned integer, got '" ++ value ++ "'"

namespace Settings

def ofJson (d : Json) : Option Settings := do
  let s : Settings := {}
  let path (d : Json) : Option Path := d.text?.map Path.mk
  let word (d : Json) : Option UInt64 := (Json.natUpTo 18446744073709551615 d).map UInt64.ofNat
  match ← d.record? ["library_dir", "addons_dir", "addons_config", "saves_dir", "seed"] with
  | [library, addons, addonFile, saves, seed] =>
    some
      { library := ← Json.orDefault s.library path library
        addons := ← Json.orDefault s.addons path addons
        addonFile := ← Json.orDefault s.addonFile path addonFile
        saves := ← Json.orDefault s.saves path saves
        seed := ← Json.orDefault none (Json.nullable word) seed }
  | _ => none

def read (s : String) : Option Settings :=
  (Toml.read s).bind ofJson

def load (d : Disk) (p : Path) : Except SettingsError Settings :=
  match d.readText p with
  | .error fault => .error (.io p fault)
  | .ok s =>
    match read s with
    | some settings => .ok settings
    | none => .error (.malformed p)

def fileOf (product : String) : Path :=
  ⟨product ++ ".toml"⟩

def variableOf (product setting : String) : String :=
  String.ofList (product.toList.map Char.toUpper) ++ "_" ++ setting

def override (product : String) (env : String → Option String) (s : Settings) :
    Except SettingsError Settings := do
  let get (setting : String) := env (variableOf product setting)
  let seed ← match get "SEED" with
    | none => .ok s.seed
    | some raw =>
      match readUInt64? (trim raw.toList) with
      | some n => .ok (some n)
      | none => .error (.badSeed (variableOf product "SEED") raw)
  return { s with
    library := ((get "LIBRARY_DIR").map Path.mk).getD s.library
    addons := ((get "ADDONS_DIR").map Path.mk).getD s.addons
    saves := ((get "SAVES_DIR").map Path.mk).getD s.saves
    seed }

/-- The settings of a product: from the file that the environment names or else the one in the
working directory, if there is one, under what the environment says. -/
def discover (product : String) (env : String → Option String) (d : Disk) :
    Except SettingsError Settings := do
  let s ← match env (variableOf product "CONFIG") with
    | some p => load d ⟨p⟩
    | none => if d.isFile (fileOf product) then load d (fileOf product) else .ok {}
  override product env s

def gameDir (s : Settings) (game : String) : Path :=
  s.library.join game

def savePath (s : Settings) (game slot : String) : Path :=
  (s.saves.join game).join (slot ++ ".json")

end Settings

end Narrative
