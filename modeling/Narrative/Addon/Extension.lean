import Narrative.Addon
import Narrative.Registry
import Narrative.Storage.Disk
import Narrative.World

/-! Extensions: what add-ons contribute to the verbs of a story when it is opened. An add-on
contributes all of its verbs, or none if a part of it fails. -/

namespace Narrative

inductive ExtensionError where
  | io (path : Path) (fault : DiskFault)
  | script (path : Path)
  | badVerbName (name : String)
  | badParameter (verb param : String)
  | crashed (reason : String)
  | failed (reason : String)
  deriving DecidableEq

def ExtensionError.message : ExtensionError → String
  | .io path fault => "IO error reading " ++ path.text ++ ": " ++ fault.message
  | .script path => "script error in " ++ path.text ++ ": not a script"
  | .badVerbName name => "invalid verb name '" ++ name ++ "'"
  | .badParameter verb param => "verb '" ++ verb ++ "': invalid parameter '" ++ param ++ "'"
  | .crashed reason => "extension panicked: " ++ reason
  | .failed reason => reason

structure Offer where
  name : String
  arity : Arity
  handler : Handler

/-- What an extension did when it was run: the verbs that it offered, and how it ended. -/
structure Contribution where
  offers : List Offer := []
  outcome : Except ExtensionError Unit := .ok ()

/-- A part of an add-on that is run once. It sees its add-on, the world and the starting state. -/
abbrev Extension := Addon → World → State → Contribution

structure ExtensionReport where
  loaded : List String := []
  failed : List (String × ExtensionError) := []
  registered : Nat := 0

/-- The verbs of a story while extensions add to them. -/
structure Extending where
  registry : Registry
  report : ExtensionReport := {}

namespace Extension

/-- The offers of extensions that are run in order, up to the first that fails. -/
def runAll (a : Addon) (w : World) (s : State) : List Extension → Except ExtensionError (List Offer)
  | [] => .ok []
  | x :: xs => do
    let c := x a w s
    c.outcome
    let offers ← runAll a w s xs
    return c.offers ++ offers

end Extension

namespace Extending

def accept (a : Addon) (r : Registry) (o : Offer) : Registry :=
  r.register ⟨o.name, o.arity, .addon a.id, o.handler⟩

def fail (x : Extending) (a : Addon) (e : ExtensionError) : Extending :=
  { x with report := { x.report with failed := x.report.failed ++ [(a.id, e)] } }

def succeed (x : Extending) (a : Addon) (offers : List Offer) : Extending where
  registry := offers.foldl (accept a) x.registry
  report :=
    { x.report with
      loaded := x.report.loaded ++ [a.id]
      registered := x.report.registered + offers.length }

/-- Adds what the parts of an add-on contribute. An add-on without parts is passed over. -/
def add (w : World) (s : State) (x : Extending) (a : Addon)
    (parts : Except ExtensionError (List Extension)) : Extending :=
  match parts with
  | .error e => x.fail a e
  | .ok [] => x
  | .ok parts =>
    match Extension.runAll a w s parts with
    | .ok offers => x.succeed a offers
    | .error e => x.fail a e

end Extending

end Narrative
