import Narrative.Lint.Content
import Narrative.Tool.Console

/-! Checking the content of a game from the command line. -/

namespace Narrative.Check

def usage : String :=
  "Usage: content_linter <game_dir> [--addon <dir>]..."

/-- The add-ons that the arguments name; other arguments are passed over. -/
def addons : List String → List Path
  | "--addon" :: path :: args => ⟨path⟩ :: addons args
  | _ :: args => addons args
  | [] => []

def categoryName : Category → String
  | .location => "Location"
  | .npc => "Npc"
  | .item => "Item"
  | .quest => "Quest"

def report (r : LintReport) : Tool Unit := do
  Tool.say ("Loaded " ++ writeNat r.load.entities ++ " entities from " ++
    writeNat r.load.files ++ " files")
  r.load.overridden.forM fun (c, id) =>
    Tool.say ("  " ++ categoryName c ++ " '" ++ id ++ "' overridden")
  Tool.say "\n=== Content Lint Report ===\n"
  if r.errors.isEmpty && r.warnings.isEmpty then Tool.say "All checks passed!"
  r.warnings.forM fun w => Tool.say ("WARNING: " ++ w)
  r.errors.forM fun e => Tool.say ("ERROR: " ++ e)
  Tool.say ("\nSummary: " ++ writeNat r.errors.length ++ " errors, " ++ writeNat r.warnings.length
    ++ " warnings")

def run (l : Launch) : Tool Unit := do
  match l.args with
  | [] | "--help" :: _ | "-h" :: _ => Tool.say usage
  | game :: args =>
    let d := (← get).disk
    if !d.isDir ⟨game⟩ then Tool.fail ("Path '" ++ game ++ "' does not exist")
    let r := Lint.check d ⟨game⟩ (addons args)
    report r
    if !r.errors.isEmpty then throw 1

end Narrative.Check
