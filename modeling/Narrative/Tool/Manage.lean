import Narrative.Addon.Manager
import Narrative.Tool.Console

/-! Listing and changing the installed add-ons. -/

namespace Narrative.Manage

def usage : List String :=
  ["Usage: addon_manager [--config <path>] <command> [args]",
    "",
    "  list                   every add-on, in load order",
    "  enable <id>            turn an add-on on",
    "  disable <id>           turn an add-on off",
    "  priority <id> <n>      set load priority",
    "  install <archive.zip>  install or replace from a zip",
    "  delete <id>            remove an add-on"]

/-- The settings file that the arguments name last, and the other arguments. -/
def options (config : Option Path) (words : List String) :
    List String → Tool (Option Path × List String)
  | [] => return (config, words)
  | "--help" :: _ | "-h" :: _ => do
    usage.forM Tool.say
    throw 0
  | "--config" :: path :: args => options (some ⟨path⟩) words args
  | arg :: args => options config (words ++ [arg]) args

def line (a : Addon) : String :=
  (if a.preference.enabled then "[x] " else "[ ] ")
    ++ padLeft 4 (writeInt a.preference.priority.toInt) ++ "  " ++ padRight 20 a.id ++ " " ++ a.name
    ++ " v" ++ a.version ++ " by " ++ a.author

def list (m : Manager) : Tool Unit :=
  match m.all with
  | [] => Tool.say ("No add-ons in " ++ m.dir.text)
  | addons => addons.forM fun a => Tool.say (line a)

def codeOf : AddonError → Nat
  | .unknown _ => 2
  | _ => 1

def manage {α : Type} (m : Manager) (a : Managing α) : Tool α := do
  let r ← Tool.storage fun d =>
    let ((r, _), d) := a m d
    (r, d)
  match r with
  | .ok v => return v
  | .error e => Tool.fail e.message (codeOf e)

def command (m : Manager) : List String → Tool Unit
  | [] | ["list"] => list m
  | ["enable", id] => manage m (Manager.toggle id true)
  | ["disable", id] => manage m (Manager.toggle id false)
  | ["priority", id, n] =>
    match readInt64? n.toList with
    | some priority => manage m (Manager.setPriority id priority)
    | none => Tool.fail ("priority must be an integer, got '" ++ n ++ "'")
  | ["install", archive] => do
    let id ← manage m (Manager.install ⟨archive⟩)
    Tool.say ("Installed '" ++ id ++ "' (disabled until enabled)")
  | ["delete", id] => manage m (Manager.delete id)
  | _ => do
    usage.forM Tool.say
    throw 1

def run (l : Launch) : Tool Unit := do
  let (config, words) ← options none [] l.args
  let settings ← Tool.settings l config
  match ← Tool.storage (Manager.open? settings.addons settings.addonFile) with
  | .ok m => command m words
  | .error e => Tool.fail e.message

end Narrative.Manage
