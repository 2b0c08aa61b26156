import Narrative.Addon.Script
import Narrative.Lint
import Narrative.World.Layering

/-! Checks of a whole game: its texts, and the places and persons that they lead to. -/

namespace Narrative

structure Finding where
  origin : String
  fault : Fault

namespace Finding

def message (f : Finding) : String :=
  f.origin ++ ": " ++ f.fault.message

end Finding

namespace Lint

def found (origin : String) (faults : List Fault) : List Finding :=
  faults.map (Finding.mk origin)

def variant (isVerb : String → Bool) (origin : String) (v : String × Json) : List Finding :=
  match v.2 with
  | .text s => found (origin ++ " (" ++ v.1 ++ ")") (template isVerb s)
  | _ => found origin [.badVariant v.1]

def description (isVerb : String → Bool) (origin : String) : Option Json → List Finding
  | some (.text s) => found origin (template isVerb s)
  | some (.table variants) => variants.flatMap (variant isVerb origin)
  | some _ => found origin [.badDescription]
  | none => found origin [.noDescription]

def target (isVerb : String → Bool) (w : World) (kind target : Option String) : List Fault :=
  match target with
  | none => [.noTarget]
  | some t =>
    if kind = some "function" then call isVerb t
    else if (w.get? .location t).isSome then [] else [.unknownTarget t]

def choice (isVerb : String → Bool) (w : World) : Json → List Fault
  | .table fields =>
    let text? (name : String) := (Json.field? name fields).bind Json.text?
    let text := ((text? "text").map (template isVerb)).getD []
    let condition := match (text? "condition").map Expr.parse with
      | some (.error e) => [Fault.condition e]
      | _ => []
    text ++ condition ++ target isVerb w (text? "type") (text? "target")
  | _ => [.badChoice]

def choices (isVerb : String → Bool) (w : World) (origin : String) (n : Nat) :
    List Json → List Finding
  | [] => []
  | d :: ds =>
    found (origin ++ " choice " ++ writeNat n) (choice isVerb w d)
      ++ choices isVerb w origin (n + 1) ds

def location (isVerb : String → Bool) (w : World) (e : String × Entity) : List Finding :=
  let origin := "location '" ++ e.1 ++ "'"
  let npcs := (e.2.texts "npcs").filter fun id => (w.get? .npc id).isNone
  description isVerb origin (e.2.get? "description") ++ found origin (npcs.map .unknownNpc)
    ++ choices isVerb w origin 1 (((e.2.get? "choices").bind Json.list?).getD [])

def npc (isVerb : String → Bool) (e : String × Entity) : List Finding :=
  match e.2.text? "description" with
  | some s => found ("npc '" ++ e.1 ++ "'") (template isVerb s)
  | none => []

def world (isVerb : String → Bool) (w : World) : List Finding :=
  w.locations.entries.flatMap (location isVerb w) ++ w.npcs.entries.flatMap (npc isVerb)

end Lint

structure LintReport where
  load : LoadReport
  errors : List String
  warnings : List String

namespace Lint

/-- The name of the last step of a path, by which an add-on that is only checked is known. -/
def addonOf (root : Path) : Addon :=
  Addon.plain (root.fileName?.getD "") root { enabled := true }

def check (d : Disk) (game : Path) (addons : List Path) : LintReport :=
  let l := Layering.load d game addons
  let verbs := Extending.load d ∅ l.world {} (addons.map addonOf) Registry.core
  let findings := world verbs.registry.contains l.world
  let start := match l.world.opening.location with
    | some id =>
      if (l.world.get? .location id).isSome then []
        else ["start location '" ++ id ++ "' does not exist"]
    | none => []
  { load := l.report
    errors :=
      l.report.skipped.map (fun s => s.1.text ++ ": " ++ s.2.message)
        ++ verbs.report.failed.map (fun f => "add-on '" ++ f.1 ++ "': " ++ f.2.message)
        ++ (findings.filter (!·.fault.isWarning)).map Finding.message ++ start
    warnings := (findings.filter (·.fault.isWarning)).map Finding.message }

end Lint

end Narrative
