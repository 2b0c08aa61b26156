import Narrative.Proofs.Course.Eval

/-! Names that are not read. Binding a name that nothing else binds changes the value of an
expression only where the expression would have failed for want of it. -/

namespace Narrative

variable {α β : Type} {x : String}

namespace Eval

/-- Where the first computation does not fail for want of the name `x`, the second does the same. -/
def SameUnless (x : String) (m m' : Eval α) : Prop :=
  ∀ s, (m.run s).1 = .error (.unknownVariable x) ∨ m'.run s = m.run s

namespace SameUnless

theorem refl (m : Eval α) : SameUnless x m m :=
  fun _ => .inr rfl

theorem bind {m m' : Eval α} {f f' : α → Eval β} (hm : SameUnless x m m')
    (hf : ∀ a, SameUnless x (f a) (f' a)) : SameUnless x (m >>= f) (m' >>= f') := by
  intro s
  rw [run_bind, run_bind]
  rcases hm s with h | h
  · left
    rcases hrun : m.run s with ⟨r, t⟩
    rw [hrun] at h
    cases h
    rfl
  · rw [h]
    rcases m.run s with ⟨e | a, t⟩
    · exact .inr rfl
    · exact hf a t

end SameUnless

end Eval

namespace Env

def binding (env : Env) (x : String) (v : Value) : Env :=
  { env with globals := env.globals.insert x v }

/-- A name that is neither a global one nor one that shows the state. -/
structure Unbound (env : Env) (x : String) : Prop where
  globals : env.globals.get? x = none
  state : ∀ s : State, s.shown? x = none

variable {env : Env} {x : String} (v : Value) (scopes : List Scope)

theorem lookup_binding (h : env.Unbound x) (name : String) :
    Eval.SameUnless x (env.lookup scopes name) ((env.binding x v).lookup scopes name) := by
  intro s
  simp only [lookup, ExceptT.run_mk, binding, Dict.get?_insert]
  by_cases hname : name = x
  · subst hname
    cases hscopes : scopes.findSome? (·.get? name) with
    | some u => exact .inr rfl
    | none =>
      left
      rw [h.globals, h.state]
      rfl
  · right
    rw [if_neg hname]

mutual

theorem eval_binding (h : env.Unbound x) (e : Expr) :
    Eval.SameUnless x (env.eval scopes e) ((env.binding x v).eval scopes e) := by
  cases e with
  | lit u =>
    simp only [Env.eval]
    exact .refl _
  | list items =>
    simp only [Env.eval]
    exact .bind (evalAll_binding h items) fun vs => .refl _
  | var name => simpa only [Env.eval] using lookup_binding v scopes h name
  | attr target name =>
    simp only [Env.eval]
    exact .bind (eval_binding h target) fun u => .refl _
  | index target key =>
    simp only [Env.eval]
    exact .bind (eval_binding h target) fun u => .bind (eval_binding h key) fun k => .refl _
  | call name args =>
    simp only [Env.eval]
    exact .bind (evalAll_binding h args) fun vs => .refl (env.apply name vs)
  | unary op e =>
    simp only [Env.eval]
    exact .bind (eval_binding h e) fun u => .refl _
  | binary op left right =>
    have hl := eval_binding h left
    have hr := eval_binding h right
    -- A side that is skipped is not asked for the name, so the sides are no parts of one sequence
    -- here.
    cases op with
    | and =>
      simp only [Env.eval]
      refine .bind hl fun u => ?_
      split
      · exact hr
      · exact .refl _
    | or =>
      simp only [Env.eval]
      refine .bind hl fun u => ?_
      split
      · exact .refl _
      · exact hr
    | _ =>
      simp only [Env.eval]
      exact .bind hl fun u => .bind hr fun w => .refl _
  | when body test =>
    simp only [Env.eval]
    refine .bind (eval_binding h test) fun t => ?_
    split
    · exact eval_binding h body
    · exact .refl _
  | choose body test otherwise =>
    simp only [Env.eval]
    refine .bind (eval_binding h test) fun t => ?_
    split
    · exact eval_binding h body
    · exact eval_binding h otherwise

theorem evalAll_binding (h : env.Unbound x) (es : List Expr) :
    Eval.SameUnless x (env.evalAll scopes es) ((env.binding x v).evalAll scopes es) := by
  cases es with
  | nil =>
    simp only [Env.evalAll]
    exact .refl _
  | cons e es =>
    simp only [Env.evalAll]
    exact .bind (eval_binding h e) fun u => .bind (evalAll_binding h es) fun us => .refl _

end

theorem evalText_binding (h : env.Unbound x) (source : String) :
    Eval.SameUnless x (env.evalText scopes source) ((env.binding x v).evalText scopes source) := by
  unfold Env.evalText
  split
  · exact eval_binding v scopes h _
  · exact .refl _

end Env

end Narrative
