import Narrative.Render.Eval
import Narrative.Template
import Narrative.Template.Shorthand

/-! Rendering: a template becomes text node by node. A failure shows in the place of its node and
ends nothing else. -/

namespace Narrative

/-- What rendering changes: the local names, the innermost scope first, and the scene. -/
structure Stage where
  scopes : List Scope
  scene : Scene

/-- A rendering step: the text that it writes, and the stage that it leaves. -/
abbrev Render := StateM Stage

def errorText (reason : String) : String :=
  "[Template Error: " ++ reason ++ "]"

/-- The items that a loop runs over: those of a list, the keys of a map, none of nothing. -/
def Value.iterate : Value → Except EvalError (List Value)
  | .list items => .ok items
  | .map entries => .ok (entries.map fun e => .text e.1)
  | .none => .ok []
  | v => .error (.type (.notIterable v.kind))

namespace Render

variable {α : Type}

def evaluate (f : List Scope → Eval α) : Render (Except EvalError α) := fun s =>
  let (r, scene) := (f s.scopes).run s.scene
  (r, { s with scene })

def assign (name : String) (v : Value) : Render Unit :=
  modify fun s =>
    match s.scopes with
    | [] => s
    | scope :: outer => { s with scopes := scope.insert name v :: outer }

def loopInfo (index length : Nat) : Value :=
  .map
    [("first", .bool (index = 0)), ("index", .int (Int64.ofNat (index + 1))),
      ("index0", .int (Int64.ofNat index)), ("last", .bool (index + 1 = length)),
      ("length", .int (Int64.ofNat length))]

/-- Runs the body of a loop for each item, in a scope of its own. -/
def each (var : String) (length : Nat) (body : Render String) : Nat → List Value → Render String
  | _, [] => pure ""
  | index, v :: vs => do
    let scope := ((∅ : Scope).insert var v).insert "loop" (loopInfo index length)
    modify fun s => { s with scopes := scope :: s.scopes }
    let out ← body
    modify fun s => { s with scopes := s.scopes.tail }
    let rest ← each var length body (index + 1) vs
    pure (out ++ rest)

end Render

namespace Env

/-- The expression text of an output region: the call that it is shorthand for, or itself. -/
def outputSource (env : Env) (content : String) : String :=
  (Shorthand.call? env.isVerb content).getD content

/-- Whether an output region stays as it is written: shorthand for a verb that does not exist. -/
def isForeign (env : Env) (content : String) : Bool :=
  (Shorthand.call? env.isVerb content).isNone && Shorthand.hasForm content

def output (env : Env) (content source : String) : Render String :=
  match Expr.parse (env.outputSource content) with
  | .ok e => do
    match ← Render.evaluate fun scopes => env.eval scopes e with
    | .ok v => pure v.display
    | .error e => pure (errorText e.message)
  | .error e => pure (if env.isForeign content then source else errorText e.message)

mutual

def renderNode (env : Env) : Node → Render String
  | .text s => pure s
  | .output content source => env.output content source
  | .cond test body arms => do
    match ← Render.evaluate fun scopes => env.condition scopes test with
    | .ok true => renderNodes env body
    | .ok false => renderArms env arms
    | .error e => pure (errorText e.message)
  | .loop var iterable body => do
    match ← Render.evaluate fun scopes => env.evalText scopes iterable with
    | .error e => pure (errorText e.message)
    | .ok v =>
      match v.iterate with
      | .error e => pure (errorText e.message)
      | .ok items => Render.each var items.length (renderNodes env body) 0 items
  | .assign name expr => do
    match ← Render.evaluate fun scopes => env.evalText scopes expr with
    | .ok v => do
      Render.assign name v
      pure ""
    | .error e => pure (errorText e.message)
  | .run expr => do
    match ← Render.evaluate fun scopes => env.evalText scopes expr with
    | .ok _ => pure ""
    | .error e => pure (errorText e.message)
  | .error e => pure (errorText e.message)

def renderNodes (env : Env) : List Node → Render String
  | [] => pure ""
  | n :: ns => do
    let out ← renderNode env n
    let rest ← renderNodes env ns
    pure (out ++ rest)

def renderArms (env : Env) : Arms → Render String
  | .done => pure ""
  | .otherwise body => renderNodes env body
  | .elif test body arms => do
    match ← Render.evaluate fun scopes => env.condition scopes test with
    | .ok true => renderNodes env body
    | .ok false => renderArms env arms
    | .error e => pure (errorText e.message)

end

def render (env : Env) (text : String) : Render String :=
  env.renderNodes (Template.parse text)

end Env

end Narrative
