import Narrative.Render

/-! Prepared templates: every expression is parsed before anything is rendered. In one of these
nothing is left that could turn out to be malformed, and a template that can be prepared renders as
what it is prepared to. -/

namespace Narrative

mutual

/-- A node of a template with its expressions parsed. -/
inductive Prepared where
  | text (s : String)
  | output (e : Expr)
  | cond (test : Expr) (body : List Prepared) (arms : PreparedArms)
  | loop (var : String) (iterable : Expr) (body : List Prepared)
  | assign (name : String) (e : Expr)
  | run (e : Expr)

inductive PreparedArms where
  | done
  | otherwise (body : List Prepared)
  | elif (test : Expr) (body : List Prepared) (arms : PreparedArms)

end

def Expr.parse? (source : String) : Option Expr :=
  (Expr.parse source).toOption

namespace Template

/-- An output is the expression of its call or of its own text. If there is none, the output has to
be shorthand for a verb that does not exist, and is its text as it is written. -/
def prepareOutput? (isVerb : String → Bool) (content source : String) : Option Prepared :=
  match Shorthand.call? isVerb content with
  | some call => (Expr.parse? call).map .output
  | none => ((Expr.parse? content).map .output).or
      (if Shorthand.hasForm content then some (.text source) else none)

mutual

def prepareNode? (isVerb : String → Bool) : Node → Option Prepared
  | .text s => some (.text s)
  | .output content source => prepareOutput? isVerb content source
  | .cond test body arms => do
    let e ← Expr.parse? test
    let ps ← prepare? isVerb body
    let rest ← prepareArms? isVerb arms
    return .cond e ps rest
  | .loop var iterable body => do
    let e ← Expr.parse? iterable
    let ps ← prepare? isVerb body
    return .loop var e ps
  | .assign name source => (Expr.parse? source).map (.assign name)
  | .run source => (Expr.parse? source).map .run
  | .error _ => none

/-- The template with all of its expressions parsed, if all can be and it has no error node. -/
def prepare? (isVerb : String → Bool) : Template → Option (List Prepared)
  | [] => some []
  | n :: ns => do
    let p ← prepareNode? isVerb n
    let ps ← prepare? isVerb ns
    return p :: ps

def prepareArms? (isVerb : String → Bool) : Arms → Option PreparedArms
  | .done => some .done
  | .otherwise body => (prepare? isVerb body).map .otherwise
  | .elif test body arms => do
    let e ← Expr.parse? test
    let ps ← prepare? isVerb body
    let rest ← prepareArms? isVerb arms
    return .elif e ps rest

end

end Template

namespace Env

variable (env : Env)

def truth (scopes : List Scope) (e : Expr) : Eval Bool := do
  let v ← env.eval scopes e
  pure v.truthy

mutual

def performNode : Prepared → Render String
  | .text s => pure s
  | .output e => do
    match ← Render.evaluate fun scopes => env.eval scopes e with
    | .ok v => pure v.display
    | .error e => pure (errorText e.message)
  | .cond test body arms => do
    match ← Render.evaluate fun scopes => env.truth scopes test with
    | .ok true => perform body
    | .ok false => performArms arms
    | .error e => pure (errorText e.message)
  | .loop var iterable body => do
    match ← Render.evaluate fun scopes => env.eval scopes iterable with
    | .error e => pure (errorText e.message)
    | .ok v =>
      match v.iterate with
      | .error e => pure (errorText e.message)
      | .ok items => Render.each var items.length (perform body) 0 items
  | .assign name e => do
    match ← Render.evaluate fun scopes => env.eval scopes e with
    | .ok v => do
      Render.assign name v
      pure ""
    | .error e => pure (errorText e.message)
  | .run e => do
    match ← Render.evaluate fun scopes => env.eval scopes e with
    | .ok _ => pure ""
    | .error e => pure (errorText e.message)

def perform : List Prepared → Render String
  | [] => pure ""
  | p :: ps => do
    let out ← performNode p
    let rest ← perform ps
    pure (out ++ rest)

def performArms : PreparedArms → Render String
  | .done => pure ""
  | .otherwise body => perform body
  | .elif test body arms => do
    match ← Render.evaluate fun scopes => env.truth scopes test with
    | .ok true => perform body
    | .ok false => performArms arms
    | .error e => pure (errorText e.message)

end

end Env

theorem Expr.parse?_eq_some {source : String} {e : Expr} (h : Expr.parse? source = some e) :
    Expr.parse source = .ok e := by
  unfold Expr.parse? at h
  cases hparse : Expr.parse source with
  | error err =>
    rw [hparse] at h
    cases h
  | ok e' =>
    rw [hparse] at h
    cases h
    rfl

theorem Expr.parse?_eq_none {source : String} (h : Expr.parse? source = none) :
    ∃ err, Expr.parse source = .error err := by
  unfold Expr.parse? at h
  cases hparse : Expr.parse source with
  | error err => exact ⟨err, rfl⟩
  | ok e =>
    rw [hparse] at h
    cases h

namespace Template

variable {isVerb : String → Bool}

theorem isSome_bind {α β : Type} {o : Option α} {f : α → Option β} {b : Bool}
    (h : ∀ a, (f a).isSome = b) : (o >>= f).isSome = (o.isSome && b) := by
  cases o with
  | none => rfl
  | some a => exact h a

theorem isSome_bind_pure {α β : Type} (o : Option α) (f : α → β) :
    (o >>= fun a => pure (f a)).isSome = o.isSome := by
  cases o <;> rfl

theorem isSome_prepareNode?_cond (test : String) (body : List Node) (arms : Arms) :
    (prepareNode? isVerb (.cond test body arms)).isSome =
      ((Expr.parse? test).isSome &&
        ((prepare? isVerb body).isSome && (prepareArms? isVerb arms).isSome)) := by
  rw [prepareNode?]
  exact isSome_bind fun _ => isSome_bind fun _ => isSome_bind_pure _ _

theorem isSome_prepareNode?_loop (var iterable : String) (body : List Node) :
    (prepareNode? isVerb (.loop var iterable body)).isSome =
      ((Expr.parse? iterable).isSome && (prepare? isVerb body).isSome) := by
  rw [prepareNode?]
  exact isSome_bind fun _ => isSome_bind_pure _ _

theorem isSome_prepare?_cons (n : Node) (ns : List Node) :
    (prepare? isVerb (n :: ns)).isSome =
      ((prepareNode? isVerb n).isSome && (prepare? isVerb ns).isSome) := by
  rw [prepare?]
  exact isSome_bind fun _ => isSome_bind_pure _ _

theorem isSome_prepareArms?_elif (test : String) (body : List Node) (arms : Arms) :
    (prepareArms? isVerb (.elif test body arms)).isSome =
      ((Expr.parse? test).isSome &&
        ((prepare? isVerb body).isSome && (prepareArms? isVerb arms).isSome)) := by
  rw [prepareArms?]
  exact isSome_bind fun _ => isSome_bind fun _ => isSome_bind_pure _ _

end Template

namespace Env

variable {env : Env} {source : String} {e : Expr}

theorem evalText_parsed (h : Expr.parse? source = some e) (scopes : List Scope) :
    env.evalText scopes source = env.eval scopes e := by
  simp only [evalText, Expr.parse?_eq_some h]

theorem condition_parsed (h : Expr.parse? source = some e) (scopes : List Scope) :
    env.condition scopes source = env.truth scopes e := by
  simp only [condition, truth, evalText_parsed h]

theorem evaluate_bind_congr {α β : Type} {f g : List Scope → Eval α}
    {k l : Except EvalError α → Render β} (hf : ∀ scopes, f scopes = g scopes)
    (hk : ∀ r, k r = l r) : (Render.evaluate f >>= k) = (Render.evaluate g >>= l) := by
  rw [funext hf, funext hk]

theorem output_parsed {content : String} (h : Expr.parse? (env.outputSource content) = some e) :
    env.output content source = env.performNode (.output e) := by
  have hparse := Expr.parse?_eq_some h
  unfold output
  split
  · next e' he =>
    obtain rfl := Except.ok.inj (hparse.symm.trans he)
    rfl
  · next err he =>
    rw [hparse] at he
    cases he

theorem output_foreign {content : String} {err : ParseError}
    (hparse : Expr.parse (env.outputSource content) = .error err)
    (hforeign : env.isForeign content = true) :
      env.output content source = env.performNode (.text source) := by
  unfold output
  split
  · next e he =>
    rw [hparse] at he
    cases he
  · next err' he =>
    rw [if_pos hforeign, performNode]

theorem output_prepared {content : String} {p : Prepared}
    (h : Template.prepareOutput? env.isVerb content source = some p) :
    env.output content source = env.performNode p := by
  unfold Template.prepareOutput? at h
  split at h
  · next call hcall =>
    obtain ⟨e, he, rfl⟩ := Option.map_eq_some_iff.mp h
    refine output_parsed ?_
    rwa [outputSource, hcall, Option.getD_some]
  · next hcall =>
    have hsource : env.outputSource content = content := by
      rw [outputSource, hcall, Option.getD_none]
    rcases Option.or_eq_some_iff.mp h with h | ⟨hnone, h⟩
    · obtain ⟨e, he, rfl⟩ := Option.map_eq_some_iff.mp h
      refine output_parsed ?_
      rwa [hsource]
    · obtain ⟨err, herr⟩ := Expr.parse?_eq_none (Option.map_eq_none_iff.mp hnone)
      obtain ⟨hform, hp⟩ := Option.ite_none_right_eq_some.mp h
      have hforeign : env.isForeign content = true := by
        rw [isForeign, hcall, Option.isNone_none, hform, Bool.and_self]
      obtain rfl := Option.some.inj hp
      exact output_foreign (by rw [hsource, herr]) hforeign

-- Along the template, not along what it is prepared to be: what a node is prepared to is read off
-- its preparation.
mutual

theorem renderNode_prepared (n : Node) {p : Prepared}
    (h : Template.prepareNode? env.isVerb n = some p) : env.renderNode n = env.performNode p := by
  cases n with
  | text s =>
    cases h
    simp only [renderNode, performNode]
  | output content source =>
    rw [renderNode]
    exact output_prepared h
  | cond test body arms =>
    simp only [Template.prepareNode?, Option.bind_eq_bind, Option.bind_eq_some_iff] at h
    obtain ⟨e, he, ps, hps, rest, hrest, hp⟩ := h
    cases hp
    rw [renderNode, performNode]
    refine evaluate_bind_congr (condition_parsed he) fun r => ?_
    rcases r with err | _ | _
    · rfl
    · exact renderArms_prepared arms hrest
    · exact renderNodes_prepared body hps
  | loop var iterable body =>
    simp only [Template.prepareNode?, Option.bind_eq_bind, Option.bind_eq_some_iff] at h
    obtain ⟨e, he, ps, hps, hp⟩ := h
    cases hp
    rw [renderNode, performNode]
    refine evaluate_bind_congr (evalText_parsed he) fun r => ?_
    rcases r with err | v
    · rfl
    · dsimp only
      cases v.iterate with
      | error err => rfl
      | ok items =>
        exact congrArg (fun m => Render.each var items.length m 0 items)
          (renderNodes_prepared body hps)
  | assign name source =>
    obtain ⟨e, he, rfl⟩ := Option.map_eq_some_iff.mp h
    rw [renderNode, performNode]
    refine evaluate_bind_congr (evalText_parsed he) fun r => ?_
    cases r <;> rfl
  | run source =>
    obtain ⟨e, he, rfl⟩ := Option.map_eq_some_iff.mp h
    rw [renderNode, performNode]
    refine evaluate_bind_congr (evalText_parsed he) fun r => ?_
    cases r <;> rfl
  | error err => cases h

theorem renderNodes_prepared (t : Template) {ps : List Prepared}
    (h : Template.prepare? env.isVerb t = some ps) : env.renderNodes t = env.perform ps := by
  cases t with
  | nil =>
    cases h
    simp only [renderNodes, perform]
  | cons n ns =>
    simp only [Template.prepare?, Option.bind_eq_bind, Option.bind_eq_some_iff] at h
    obtain ⟨p, hp, ps, hps, h⟩ := h
    cases h
    simp only [renderNodes, perform, renderNode_prepared n hp, renderNodes_prepared ns hps]

theorem renderArms_prepared (arms : Arms) {rest : PreparedArms}
    (h : Template.prepareArms? env.isVerb arms = some rest) :
      env.renderArms arms = env.performArms rest := by
  cases arms with
  | done =>
    cases h
    simp only [renderArms, performArms]
  | otherwise body =>
    obtain ⟨ps, hps, rfl⟩ := Option.map_eq_some_iff.mp h
    simp only [renderArms, performArms, renderNodes_prepared body hps]
  | elif test body arms =>
    simp only [Template.prepareArms?, Option.bind_eq_bind, Option.bind_eq_some_iff] at h
    obtain ⟨e, he, ps, hps, rest, hrest, hp⟩ := h
    cases hp
    rw [renderArms, performArms]
    refine evaluate_bind_congr (condition_parsed he) fun r => ?_
    rcases r with err | _ | _
    · rfl
    · exact renderArms_prepared arms hrest
    · exact renderNodes_prepared body hps

end

end Env

end Narrative
