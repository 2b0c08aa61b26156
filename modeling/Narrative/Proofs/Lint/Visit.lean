import Narrative.Proofs.Lint.Site
import Narrative.Proofs.Render.Append
import Narrative.Proofs.Course.Eval

/-! The sites of a text that rendering comes to, one after the other. What is rendered depends on
nothing but what the caller does at these. -/

namespace Narrative

open Lint Template

structure Visit where
  site : Site
  stage : Stage

namespace Render

def visitEach (var : String) (length : Nat) (visits : Stage → List Visit) (body : Render String) :
    Nat → List Value → Stage → List Visit
  | _, [], _ => []
  | index, v :: vs, stage =>
    let scope := ((∅ : Scope).insert var v).insert "loop" (loopInfo index length)
    let turn : Stage := { stage with scopes := scope :: stage.scopes }
    let after := (body.run turn).2
    visits turn ++ visitEach var length visits body (index + 1) vs
      { after with scopes := after.scopes.tail }

end Render

namespace Env

def visitTest (env : Env) (g : Names) (test : String) (yes no : Stage → List Visit)
    (stage : Stage) : List Visit :=
  ⟨⟨.expression test, g⟩, stage⟩ ::
    match (Render.evaluate fun scopes => env.condition scopes test).run stage with
    | (.ok true, stage) => yes stage
    | (.ok false, stage) => no stage
    | (.error _, _) => []

mutual

def nodeVisits (env : Env) (g : Names) : Node → Stage → List Visit
  | .text _, _ | .error _, _ => []
  | .output content source, stage => [⟨⟨.output content source, g⟩, stage⟩]
  | .cond test body arms, stage =>
    env.visitTest g test (visits env g body) (armVisits env g arms) stage
  | .loop var iterable body, stage =>
    ⟨⟨.expression iterable, g⟩, stage⟩ ::
      match (Render.evaluate fun scopes => env.evalText scopes iterable).run stage with
      | (.ok v, stage) =>
        match v.iterate with
        | .ok items =>
          Render.visitEach var items.length (visits env (g.inLoop var) body) (env.renderNodes body)
            0 items stage
        | .error _ => []
      | (.error _, _) => []
  | .assign _ source, stage | .run source, stage => [⟨⟨.expression source, g⟩, stage⟩]

/-- The sites that rendering comes to, in their order, with the stage at each. -/
def visits (env : Env) (g : Names) : List Node → Stage → List Visit
  | [], _ => []
  | n :: ns, stage =>
    nodeVisits env g n stage ++ visits env (g.after n) ns ((env.renderNode n).run stage).2

def armVisits (env : Env) (g : Names) : Arms → Stage → List Visit
  | .done, _ => []
  | .otherwise body, stage => visits env g body stage
  | .elif test body arms, stage =>
    env.visitTest g test (visits env g body) (armVisits env g arms) stage

end

def textVisits (env : Env) (text : String) (stage : Stage) : List Visit :=
  env.visits ⟨[], []⟩ (Template.parse text) stage

end Env

/-- Two callers come to the same at a visit. -/
def Visit.Same (env env' : Env) (v : Visit) : Prop :=
  match v.site.spot with
  | .output content source =>
    (env.output content source).run v.stage = (env'.output content source).run v.stage
  | .expression source =>
    (env.evalText v.stage.scopes source).run v.stage.scene =
      (env'.evalText v.stage.scopes source).run v.stage.scene

namespace Env

open Render

variable {env env' : Env} {g : Names} {stage : Stage} {source : String}

theorem evaluate_run {α : Type} (f : List Scope → Eval α) (stage : Stage) :
    (Render.evaluate f).run stage =
      let answer := (f stage.scopes).run stage.scene
      (answer.1, { stage with scene := answer.2 }) :=
  rfl

theorem evaluate_congr (h : Visit.Same env env' ⟨⟨.expression source, g⟩, stage⟩) :
    (Render.evaluate fun scopes => env.evalText scopes source).run stage =
      (Render.evaluate fun scopes => env'.evalText scopes source).run stage := by
  have h : (env.evalText stage.scopes source).run stage.scene = _ := h
  rw [evaluate_run, evaluate_run, h]

theorem condition_congr (h : Visit.Same env env' ⟨⟨.expression source, g⟩, stage⟩) :
    (Render.evaluate fun scopes => env.condition scopes source).run stage =
      (Render.evaluate fun scopes => env'.condition scopes source).run stage := by
  have h : (env.evalText stage.scopes source).run stage.scene = _ := h
  rw [evaluate_run, evaluate_run, condition, condition, Eval.run_bind, Eval.run_bind, h]

theorem test_congr {yes no : Stage → List Visit} {body body' rest rest' : Render String}
    (h : ∀ v ∈ env.visitTest g source yes no stage, v.Same env env')
    (hyes : ∀ stage, (∀ v ∈ yes stage, v.Same env env') → body.run stage = body'.run stage)
    (hno : ∀ stage, (∀ v ∈ no stage, v.Same env env') → rest.run stage = rest'.run stage) :
    (do match ← Render.evaluate fun scopes => env.condition scopes source with
        | .ok true => body
        | .ok false => rest
        | .error e => pure (errorText e.message) : Render String).run stage =
    (do match ← Render.evaluate fun scopes => env'.condition scopes source with
        | .ok true => body'
        | .ok false => rest'
        | .error e => pure (errorText e.message) : Render String).run stage := by
  rw [visitTest, List.forall_mem_cons] at h
  obtain ⟨htest, h⟩ := h
  rw [StateT.run_bind, StateT.run_bind, ← condition_congr htest]
  generalize (Render.evaluate fun scopes => env.condition scopes source).run stage = answer at h
  match answer with
  | (.ok true, after) => exact hyes after h
  | (.ok false, after) => exact hno after h
  | (.error e, after) => rfl

theorem each_cons_run (var : String) (length : Nat) (body : Render String) (index : Nat) (v : Value)
    (vs : List Value) (stage : Stage) : (Render.each var length body index (v :: vs)).run stage =
      let scope := ((∅ : Scope).insert var v).insert "loop" (loopInfo index length)
      let turn := body.run { stage with scopes := scope :: stage.scopes }
      let rest :=
        (Render.each var length body (index + 1) vs).run
          { turn.2 with scopes := turn.2.scopes.tail }
      (turn.1 ++ rest.1, rest.2) :=
  rfl

theorem each_congr {body body' : Render String} {visits : Stage → List Visit} (var : String)
    (length : Nat)
    (hbody : ∀ stage, (∀ v ∈ visits stage, v.Same env env') → body.run stage = body'.run stage)
    (vs : List Value) (index : Nat) (stage : Stage)
    (h : ∀ v ∈ visitEach var length visits body index vs stage, v.Same env env') :
    (Render.each var length body index vs).run stage =
      (Render.each var length body' index vs).run stage := by
  induction vs generalizing index stage with
  | nil => rfl
  | cons v vs ih =>
    rw [visitEach, List.forall_mem_append] at h
    have hturn := hbody _ h.1
    rw [each_cons_run, each_cons_run]
    dsimp only
    rw [← hturn, ih (index + 1) _ h.2]

theorem loop_run (var iterable : String) (body : List Node) (stage : Stage) :
    (env.renderNode (.loop var iterable body)).run stage =
      match (Render.evaluate fun scopes => env.evalText scopes iterable).run stage with
      | (.ok v, after) =>
        match v.iterate with
        | .ok items => (Render.each var items.length (env.renderNodes body) 0 items).run after
        | .error e => (errorText e.message, after)
      | (.error e, after) => (errorText e.message, after) := by
  rw [renderNode, StateT.run_bind]
  rcases (Render.evaluate fun scopes => env.evalText scopes iterable).run stage with ⟨e | v, after⟩
  · rfl
  · dsimp only [bind]
    cases v.iterate <;> rfl

mutual

theorem renderNode_congr (g : Names) (n : Node) (stage : Stage)
    (h : ∀ v ∈ env.nodeVisits g n stage, v.Same env env') :
    (env.renderNode n).run stage = (env'.renderNode n).run stage := by
  cases n with
  | text | error =>
    rw [renderNode, renderNode]
  | output content source =>
    rw [nodeVisits, List.forall_mem_singleton] at h
    rw [renderNode, renderNode]
    exact h
  | assign | run =>
    rw [nodeVisits, List.forall_mem_singleton] at h
    rw [renderNode, renderNode, StateT.run_bind, StateT.run_bind, evaluate_congr h]
  | cond test body arms =>
    rw [nodeVisits] at h
    rw [renderNode, renderNode]
    exact test_congr h (renderNodes_congr g body) (renderArms_congr g arms)
  | loop var iterable body =>
    rw [nodeVisits, List.forall_mem_cons] at h
    obtain ⟨hitems, h⟩ := h
    rw [loop_run, loop_run, ← evaluate_congr hitems]
    generalize (Render.evaluate fun scopes => env.evalText scopes iterable).run stage = answer at h
    match answer with
    | (.error e, after) => rfl
    | (.ok v, after) =>
      dsimp only at h ⊢
      cases hv : v.iterate with
      | error e => rfl
      | ok items =>
        rw [hv] at h
        exact each_congr var _ (renderNodes_congr (g.inLoop var) body) items 0 after h

theorem renderNodes_congr (g : Names) (ns : List Node) (stage : Stage)
    (h : ∀ v ∈ env.visits g ns stage, v.Same env env') :
    (env.renderNodes ns).run stage = (env'.renderNodes ns).run stage := by
  cases ns with
  | nil => rw [renderNodes, renderNodes]
  | cons n ns =>
    rw [visits, List.forall_mem_append] at h
    have hn := renderNode_congr g n stage h.1
    rw [renderNodes_cons, renderNodes_cons, followedBy_run, followedBy_run]
    dsimp only
    rw [← hn, renderNodes_congr (g.after n) ns _ h.2]

theorem renderArms_congr (g : Names) (arms : Arms) (stage : Stage)
    (h : ∀ v ∈ env.armVisits g arms stage, v.Same env env') :
    (env.renderArms arms).run stage = (env'.renderArms arms).run stage := by
  cases arms with
  | done => rw [renderArms, renderArms]
  | otherwise body =>
    rw [armVisits] at h
    rw [renderArms, renderArms]
    exact renderNodes_congr g body stage h
  | elif test body arms =>
    rw [armVisits] at h
    rw [renderArms, renderArms]
    exact test_congr h (renderNodes_congr g body) (renderArms_congr g arms)

end

theorem render_congr {text : String} (h : ∀ v ∈ env.textVisits text stage, v.Same env env') :
    (env.render text).run stage = (env'.render text).run stage :=
  renderNodes_congr _ _ stage h

end Env

end Narrative
