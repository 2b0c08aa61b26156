import Narrative.Expr.Parser
import Narrative.Render.Builtin
import Narrative.Render.Operator

/-! The values of expressions. Evaluation reads names from scopes, globals and the state, and
changes the scene only through the verbs that it calls and the numbers that it draws. -/

namespace Narrative

abbrev Scope := Dict Value

/-- What a directive is rendered against: which names are verbs, how they are called, and the names
that it is given besides its own. -/
structure Env where
  isVerb : String → Bool
  call : Call
  globals : Scope

/-- A computation on the scene that can fail. What it did before it failed stays done. -/
abbrev Eval := ExceptT EvalError (StateM Scene)

namespace Eval

variable {α : Type}

def ofExcept (r : Except EvalError α) : Eval α :=
  ExceptT.mk (pure r)

def verb (call : Call) (name : String) (args : List Value) : Eval Value :=
  ExceptT.mk fun s =>
    match call name args s with
    | (.ok words, s) => (.ok (.text words), s)
    | (.error e, s) => (.error (.verb e), s)

def builtin (f : Builtin) (args : List Value) : Eval Value :=
  ExceptT.mk fun s =>
    let (r, chance) := f.call args s
    (r, { s with chance })

end Eval

namespace Env

/-- The value of a name: the innermost local one, else the global one, else that of the state. -/
def lookup (env : Env) (scopes : List Scope) (name : String) : Eval Value :=
  ExceptT.mk fun s =>
    match ((scopes.findSome? (·.get? name)).or (env.globals.get? name)).or
        (s.state.shown? name) with
    | some v => (.ok v, s)
    | none => (.error (.unknownVariable name), s)

/-- A call by name: verbs come before functions. -/
def apply (env : Env) (name : String) (args : List Value) : Eval Value :=
  if env.isVerb name then Eval.verb env.call name args
  else
    match Builtin.ofName? name with
    | some f => Eval.builtin f args
    | none => throw (.unknownFunction name)

mutual

def eval (env : Env) (scopes : List Scope) : Expr → Eval Value
  | .lit v => pure v
  | .list items => do
    let vs ← evalAll env scopes items
    pure (.list vs)
  | .var name => env.lookup scopes name
  | .attr target name => do
    let v ← eval env scopes target
    Eval.ofExcept ((v.attr name).mapError .type)
  | .index target key => do
    let v ← eval env scopes target
    let k ← eval env scopes key
    Eval.ofExcept ((v.index k).mapError .type)
  | .call name args => do
    let vs ← evalAll env scopes args
    env.apply name vs
  | .unary op e => do
    let v ← eval env scopes e
    Eval.ofExcept (op.apply v)
  | .binary .and left right => do
    let v ← eval env scopes left
    if v.truthy then eval env scopes right else pure v
  | .binary .or left right => do
    let v ← eval env scopes left
    if v.truthy then pure v else eval env scopes right
  | .binary op left right => do
    let v ← eval env scopes left
    let w ← eval env scopes right
    Eval.ofExcept (op.apply v w)
  | .when body test => do
    let t ← eval env scopes test
    if t.truthy then eval env scopes body else pure .none
  | .choose body test otherwise => do
    let t ← eval env scopes test
    if t.truthy then eval env scopes body else eval env scopes otherwise

def evalAll (env : Env) (scopes : List Scope) : List Expr → Eval (List Value)
  | [] => pure []
  | e :: es => do
    let v ← eval env scopes e
    let vs ← evalAll env scopes es
    pure (v :: vs)

end

def evalText (env : Env) (scopes : List Scope) (source : String) : Eval Value :=
  match Expr.parse source with
  | .ok e => env.eval scopes e
  | .error e => throw (.parse e)

def condition (env : Env) (scopes : List Scope) (source : String) : Eval Bool := do
  let v ← env.evalText scopes source
  pure v.truthy

end Env

end Narrative
