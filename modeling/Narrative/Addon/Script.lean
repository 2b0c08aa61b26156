import Narrative.Addon.Extension
import Narrative.Ron.Reader

/-! Scripts: verbs that an add-on writes as templates, with parameters that the arguments are bound
to. -/

namespace Narrative

structure ScriptVerb where
  params : List String
  body : String
  deriving DecidableEq

structure Script where
  verbs : Dict ScriptVerb

def scriptName : String := "main.ron"

namespace ScriptVerb

/-- The value of a field that is written at most once. -/
def single? (name : String) (fields : List (String × Ron)) : Option (Option Ron) :=
  match fields.filter (·.1 = name) with
  | [] => some none
  | [f] => some (some f.2)
  | _ => none

def ofRon (v : Ron) : Option ScriptVerb := do
  let fields ← v.fields? "ScriptedVerb"
  let params ← match ← single? "params" fields with
    | none => some []
    | some (.list items) => items.mapM Ron.text?
    | some _ => none
  let body ← (← single? "body" fields).bind Ron.text?
  some ⟨params, body⟩

end ScriptVerb

namespace Script

def ofRon (v : Ron) : Option Script := do
  let fields ← v.fields? "AddonScript"
  match ← ScriptVerb.single? "verbs" fields with
  | none => some ⟨∅⟩
  | some (.map entries) => do
    let verbs ← entries.mapM fun e => do
      let name ← e.1.text?
      let verb ← ScriptVerb.ofRon e.2
      some (name, verb)
    some ⟨Dict.ofList verbs⟩
  | some _ => none

/-- The first name in a verb that is none, if there is one. -/
def fault? (name : String) (v : ScriptVerb) : Option ExtensionError :=
  if !isName name then some (.badVerbName name)
  else (v.params.find? (!isName ·)).map (.badParameter name)

def offer (e : String × ScriptVerb) : Offer :=
  ⟨e.1, .exactly e.2.params.length, .script e.2.params e.2.body⟩

/-- The extension that offers the verbs of a script, if all their names can be written. -/
def extension (s : Script) : Extension := fun _ _ _ =>
  match s.verbs.entries.findSome? fun e => fault? e.1 e.2 with
  | some e => { outcome := .error e }
  | none => { offers := s.verbs.entries.map offer }

end Script

namespace Disk

def readScript (d : Disk) (root : Path) : Except ExtensionError (Option Script) :=
  let p := root.join scriptName
  if d.isFile p then
    match d.readText p with
    | .error fault => .error (.io p fault)
    | .ok s =>
      match (Ron.read s).bind Script.ofRon with
      | some script => .ok (some script)
      | none => .error (.script p)
  else .ok none

/-- The parts of an add-on that are run: its script, and then the extension that the program has for
it. -/
def parts (d : Disk) (catalog : Dict Extension) (a : Addon) :
    Except ExtensionError (List Extension) := do
  let script ← d.readScript a.path
  return (script.map Script.extension).toList ++ (catalog.get? a.id).toList

end Disk

namespace Extending

def load (d : Disk) (catalog : Dict Extension) (w : World) (s : State) (addons : List Addon)
    (r : Registry) : Extending :=
  addons.foldl (fun x a => x.add w s a (d.parts catalog a)) { registry := r }

end Extending

end Narrative
