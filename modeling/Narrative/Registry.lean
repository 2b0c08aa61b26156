import Narrative.Render
import Narrative.Verb.Core

/-! The verbs of a story and their dispatch. Verbs may call verbs, to a limited depth. -/

namespace Narrative

inductive Origin where
  | core
  | addon (id : String)
  deriving DecidableEq

def Origin.display : Origin → String
  | .core => "core"
  | .addon id => "addon:" ++ id

/-- What a verb does. A script is a template that the arguments are bound in; a native verb is a
function that is told how many verbs are running, itself among them, and how to call others. -/
inductive Handler where
  | core (v : CoreVerb)
  | script (params : List String) (body : String)
  | native (run : Nat → Call → Args → Scene → Except VerbError String × Scene)

structure Verb where
  name : String
  arity : Arity
  origin : Origin
  handler : Handler

structure Registry where
  verbs : Dict Verb

/-- How many verbs can be running inside one another. -/
def callLimit : Nat := 16

namespace Verb

def ofCore (v : CoreVerb) : Verb :=
  ⟨v.name, v.arity, .core, .core v⟩

end Verb

namespace Registry

def empty : Registry :=
  ⟨∅⟩

/-- Adds a verb, in the place of the one that had its name. -/
def register (r : Registry) (v : Verb) : Registry :=
  ⟨r.verbs.insert v.name v⟩

def core : Registry :=
  (CoreVerb.all.map Verb.ofCore).foldl register empty

def get? (r : Registry) (name : String) : Option Verb :=
  r.verbs.get? name

def contains (r : Registry) (name : String) : Bool :=
  r.verbs.contains name

def names (r : Registry) : List String :=
  r.verbs.keys

def size (r : Registry) : Nat :=
  r.verbs.size

def bindParams (params : List String) (args : List Value) : Scope :=
  (params.zip args).foldl (fun d p => d.insert p.1 p.2) ∅

/-- Runs what a verb does, as the verb at depth `depth`, with `call` for the verbs that it calls. -/
def handle (r : Registry) (h : Handler) (depth : Nat) (call : Call) (args : Args) (s : Scene) :
    Except VerbError String × Scene :=
  match h with
  | .core v =>
    let (r, state) := (v.run args).run s.state
    (r, { s with state })
  | .script params body =>
    let env : Env := ⟨r.contains, call, ∅⟩
    let (words, stage) := (env.render body).run ⟨[bindParams params args.values], s⟩
    (.ok words, stage.scene)
  | .native run => run depth call args s

/-- Calls a verb by name, with room for `room` more verbs inside one another. -/
def callWithin (r : Registry) (room : Nat) : Call := fun name args s =>
  match r.get? name with
  | none => (.error (.notFound name), s)
  | some v =>
    if !v.arity.accepts args.length then (.error (.arity name v.arity args.length), s)
    else
      match room with
      | 0 => (.error (.tooDeep name), s)
      | room + 1 => r.handle v.handler (callLimit - room) (r.callWithin room) ⟨name, args⟩ s

def call (r : Registry) : Call :=
  r.callWithin callLimit

def env (r : Registry) (globals : Scope) : Env :=
  ⟨r.contains, r.call, globals⟩

end Registry

end Narrative
