import Mathlib.Tactic.Choose
import Narrative.Proofs.Course.Plan

/-! Evaluation is a plan: what an expression asks of the verbs does not depend on how they are
run. -/

namespace Narrative

variable {α β : Type} {R : Scene → Scene → Prop}

namespace Eval

/-- Whatever answers its calls, the computation does what one plan says. -/
def Planned (m : Call → Eval α) : Prop :=
  ∃ p : Plan (Except EvalError α), ∀ call s, (m call).run s = p.run call s

theorem Planned.pure (a : α) : Planned fun _ => (Pure.pure a : Eval α) :=
  ⟨.done (.ok a), fun _ _ => rfl⟩

theorem Planned.ofExcept (r : Except EvalError α) : Planned fun _ => Eval.ofExcept r :=
  ⟨.done r, fun _ _ => rfl⟩

theorem Planned.throw (e : EvalError) : Planned fun _ => (MonadExcept.throw e : Eval α) :=
  .ofExcept (.error e)

theorem run_bind (m : Eval α) (f : α → Eval β) (s : Scene) :
    (m >>= f).run s = match m.run s with
      | (.ok a, t) => (f a).run t
      | (.error e, t) => (.error e, t) := by
  change (ExceptT.bindCont f (m.run s).1) (m.run s).2 = _
  rcases m.run s with ⟨_ | _, _⟩ <;> rfl

theorem Planned.bind {m : Call → Eval α} {f : Call → α → Eval β} (hm : Planned m)
    (hf : ∀ a, Planned fun call => f call a) : Planned fun call => m call >>= f call := by
  obtain ⟨p, hp⟩ := hm
  choose q hq using hf
  let rest : Except EvalError α → Plan (Except EvalError β)
    | .ok a => q a
    | .error e => .done (.error e)
  refine ⟨p.bind rest, fun call s => ?_⟩
  rw [run_bind, Plan.run_bind, ← hp call s]
  rcases (m call).run s with ⟨e | a, t⟩
  · rfl
  · exact hq a call t

theorem Planned.verb (name : String) (args : List Value) :
    Planned fun call => Eval.verb call name args := by
  refine ⟨.call name args fun r => .done ((r.map Value.text).mapError EvalError.verb),
    fun call s => ?_⟩
  simp only [Eval.verb, ExceptT.run_mk, Plan.run]
  rcases call name args s with ⟨e | words, t⟩ <;> rfl

theorem Planned.builtin (f : Builtin) (args : List Value) : Planned fun _ => Eval.builtin f args :=
  ⟨.look fun s => .draw (f.call args s).2 (.done (f.call args s).1), fun _ _ => rfl⟩

theorem Planned.follows {m : Call → Eval α} (hm : Planned m) (hR : Course R) {call : Call}
    (hcall : call.Follows R) (s : Scene) : R s ((m call).run s).2 := by
  obtain ⟨p, hp⟩ := hm
  rw [hp]
  exact p.run_follows hR hcall s

end Eval

namespace Env

theorem eval_binary {env : Env} {scopes : List Scope} {op : BinaryOp} (hand : op ≠ .and)
    (hor : op ≠ .or) {left right : Expr} {v w : Value} {s t u : Scene}
    (hleft : (env.eval scopes left).run s = (.ok v, t))
    (hright : (env.eval scopes right).run t = (.ok w, u)) :
    (env.eval scopes (.binary op left right)).run s = (op.apply v w, u) := by
  cases op with
  | and => exact absurd rfl hand
  | or => exact absurd rfl hor
  | _ =>
    simp only [Env.eval, Eval.run_bind, hleft, hright]
    rfl

def answering (env : Env) (call : Call) : Env :=
  { env with call }

variable (env : Env) (scopes : List Scope)

theorem lookup_planned (name : String) :
    Eval.Planned fun call => (env.answering call).lookup scopes name := by
  refine ⟨.look fun s => .done (((env.lookup scopes name).run s).1), fun call s => ?_⟩
  change (env.lookup scopes name).run s = (((env.lookup scopes name).run s).1, s)
  unfold Env.lookup
  simp only [ExceptT.run_mk]
  split <;> rfl

theorem apply_planned (name : String) (args : List Value) :
    Eval.Planned fun call => (env.answering call).apply name args := by
  unfold Env.apply
  change Eval.Planned fun call => if env.isVerb name then Eval.verb call name args else _
  split
  · exact .verb name args
  · split
    · exact .builtin _ args
    · exact .throw _

mutual

theorem eval_planned (e : Expr) : Eval.Planned fun call => (env.answering call).eval scopes e := by
  cases e with
  | lit v => simpa only [Env.eval] using Eval.Planned.pure v
  | list items =>
    simp only [Env.eval]
    exact .bind (evalAll_planned items) fun vs => .pure _
  | var name => simpa only [Env.eval] using lookup_planned env scopes name
  | attr target name =>
    simp only [Env.eval]
    exact .bind (eval_planned target) fun v => .ofExcept _
  | index target key =>
    simp only [Env.eval]
    exact .bind (eval_planned target) fun v =>
      .bind (eval_planned key) fun k => .ofExcept _
  | call name args =>
    simp only [Env.eval]
    exact .bind (evalAll_planned args) fun vs => apply_planned env name vs
  | unary op e =>
    simp only [Env.eval]
    exact .bind (eval_planned e) fun v => .ofExcept _
  | binary op left right =>
    have hl := eval_planned left
    have hr := eval_planned right
    cases op with
    | and =>
      simp only [Env.eval]
      refine .bind hl fun v => ?_
      split
      · exact hr
      · exact .pure v
    | or =>
      simp only [Env.eval]
      refine .bind hl fun v => ?_
      split
      · exact .pure v
      · exact hr
    | _ =>
      simp only [Env.eval]
      exact .bind hl fun v => .bind hr fun w => .ofExcept _
  | when body test =>
    simp only [Env.eval]
    refine .bind (eval_planned test) fun t => ?_
    split
    · exact eval_planned body
    · exact .pure _
  | choose body test otherwise =>
    simp only [Env.eval]
    refine .bind (eval_planned test) fun t => ?_
    split
    · exact eval_planned body
    · exact eval_planned otherwise

theorem evalAll_planned (es : List Expr) :
    Eval.Planned fun call => (env.answering call).evalAll scopes es := by
  cases es with
  | nil => simpa only [Env.evalAll] using Eval.Planned.pure []
  | cons e es =>
    simp only [Env.evalAll]
    exact .bind (eval_planned e) fun v =>
      .bind (evalAll_planned es) fun vs => .pure _

end

theorem evalText_planned (source : String) :
    Eval.Planned fun call => (env.answering call).evalText scopes source := by
  unfold Env.evalText
  split
  · exact eval_planned env scopes _
  · exact .throw _

theorem condition_planned (source : String) :
    Eval.Planned fun call => (env.answering call).condition scopes source :=
  .bind (evalText_planned env scopes source) fun v => .pure v.truthy

theorem evalText_follows {env : Env} (hR : Course R) (hcall : env.call.Follows R)
    (scopes : List Scope)
    (source : String) (s : Scene) : R s ((env.evalText scopes source).run s).2 :=
  (evalText_planned env scopes source).follows hR hcall s

theorem condition_follows {env : Env} (hR : Course R) (hcall : env.call.Follows R)
    (scopes : List Scope)
    (source : String) (s : Scene) : R s ((env.condition scopes source).run s).2 :=
  (condition_planned env scopes source).follows hR hcall s

end Env

end Narrative
