import Narrative.Proofs.Course.Eval
import Narrative.Registry

/-! The calls of a text, by name. Evaluation and rendering change of the scene only what these calls
change, so a text that calls no verb leaves the state as it is, and one that draws no number besides
the source of chance too. -/

namespace Narrative

mutual

def Expr.calls : Expr → List String
  | .lit _ | .var _ => []
  | .list items => callsAll items
  | .attr target _ => target.calls
  | .index target key => target.calls ++ key.calls
  | .call name args => name :: callsAll args
  | .unary _ e => e.calls
  | .binary _ left right => left.calls ++ right.calls
  | .when body test => body.calls ++ test.calls
  | .choose body test otherwise => body.calls ++ (test.calls ++ otherwise.calls)

def Expr.callsAll : List Expr → List String
  | [] => []
  | e :: es => e.calls ++ callsAll es

end

def Expr.callsIn (source : String) : List String :=
  match Expr.parse source with
  | .ok e => e.calls
  | .error _ => []

namespace Env

mutual

/-- The names of the calls in a node. Outputs that are shorthand count as the calls that they stand
for. -/
def nodeCalls (env : Env) : Node → List String
  | .text _ | .error _ => []
  | .output content _ => Expr.callsIn (env.outputSource content)
  | .cond test body arms => Expr.callsIn test ++ (calls env body ++ armCalls env arms)
  | .loop _ iterable body => Expr.callsIn iterable ++ calls env body
  | .assign _ expr => Expr.callsIn expr
  | .run expr => Expr.callsIn expr

def calls (env : Env) : Template → List String
  | [] => []
  | n :: ns => nodeCalls env n ++ calls env ns

def armCalls (env : Env) : Arms → List String
  | .done => []
  | .otherwise body => calls env body
  | .elif test body arms => Expr.callsIn test ++ (calls env body ++ armCalls env arms)

end

def callsIn (env : Env) (text : String) : List String :=
  env.calls (Template.parse text)

/-- None of the names is that of a verb. -/
def VerbFree (env : Env) (names : List String) : Prop :=
  ∀ name ∈ names, env.isVerb name = false

instance (env : Env) (names : List String) : Decidable (env.VerbFree names) :=
  inferInstanceAs (Decidable (∀ name ∈ names, env.isVerb name = false))

end Env

variable {α β γ : Type} {look : Scene → γ}

namespace Eval

/-- Whether it fails or not, the computation leaves what `look` sees of the scene. -/
def Keeps (look : Scene → γ) (m : Eval α) : Prop :=
  ∀ s, look (m.run s).2 = look s

namespace Keeps

theorem ofExcept (r : Except EvalError α) : Keeps look (Eval.ofExcept r) :=
  fun _ => rfl

theorem pure (a : α) : Keeps look (Pure.pure a : Eval α) :=
  fun _ => rfl

theorem bind {m : Eval α} {f : α → Eval β} (hm : Keeps look m) (hf : ∀ a, Keeps look (f a)) :
    Keeps look (m >>= f) := by
  intro s
  have h := hm s
  rw [run_bind]
  rcases hrun : m.run s with ⟨e | a, t⟩ <;> rw [hrun] at h
  · exact h
  · exact (hf a t).trans h

end Keeps

end Eval

def Env.CallsKeep (env : Env) (look : Scene → γ) (names : List String) : Prop :=
  ∀ name ∈ names, ∀ args, Eval.Keeps look (env.apply name args)

namespace Env.CallsKeep

variable {env : Env} {a b : List String}

theorem left (h : env.CallsKeep look (a ++ b)) : env.CallsKeep look a :=
  fun name hn => h name (List.mem_append_left b hn)

theorem right (h : env.CallsKeep look (a ++ b)) : env.CallsKeep look b :=
  fun name hn => h name (List.mem_append_right a hn)

theorem of_mem {ι : Type} {as : List ι} {f : ι → List String}
    (h : env.CallsKeep look (as.flatMap f)) {x : ι} (hx : x ∈ as) : env.CallsKeep look (f x) :=
  fun name hn => h name (List.mem_flatMap.mpr ⟨x, hx, hn⟩)

end Env.CallsKeep

namespace Env

variable {env : Env}

theorem lookup_keeps (scopes : List Scope) (name : String) :
    Eval.Keeps look (env.lookup scopes name) := by
  intro s
  unfold lookup
  simp only [ExceptT.run_mk]
  split <;> rfl

mutual

theorem eval_keeps (scopes : List Scope) (e : Expr) (h : env.CallsKeep look e.calls) :
    Eval.Keeps look (env.eval scopes e) := by
  cases e with
  | lit v =>
    simp only [Env.eval]
    exact .pure v
  | list items =>
    simp only [Env.eval, Expr.calls] at h ⊢
    exact .bind (evalAll_keeps scopes items h) fun vs => .pure _
  | var name =>
    simp only [Env.eval]
    exact lookup_keeps scopes name
  | attr target name =>
    simp only [Env.eval, Expr.calls] at h ⊢
    exact .bind (eval_keeps scopes target h) fun v => .ofExcept _
  | index target key =>
    simp only [Env.eval, Expr.calls] at h ⊢
    exact .bind (eval_keeps scopes target h.left) fun v =>
      .bind (eval_keeps scopes key h.right) fun k => .ofExcept _
  | call name args =>
    simp only [Env.eval, Expr.calls] at h ⊢
    have hargs : env.CallsKeep look (Expr.callsAll args) :=
      fun f hf => h f (List.mem_cons_of_mem name hf)
    exact .bind (evalAll_keeps scopes args hargs) fun vs => h name List.mem_cons_self vs
  | unary op e =>
    simp only [Env.eval, Expr.calls] at h ⊢
    exact .bind (eval_keeps scopes e h) fun v => .ofExcept _
  | binary op left right =>
    simp only [Expr.calls] at h
    have hl := eval_keeps scopes left h.left
    have hr := eval_keeps scopes right h.right
    cases op with
    | and =>
      simp only [Env.eval]
      refine .bind hl fun v => ?_
      split
      · exact hr
      · exact .pure v
    | or =>
      simp only [Env.eval]
      refine .bind hl fun v => ?_
      split
      · exact .pure v
      · exact hr
    | _ =>
      simp only [Env.eval]
      exact .bind hl fun v => .bind hr fun w => .ofExcept _
  | when body test =>
    simp only [Env.eval, Expr.calls] at h ⊢
    refine .bind (eval_keeps scopes test h.right) fun t => ?_
    split
    · exact eval_keeps scopes body h.left
    · exact .pure _
  | choose body test otherwise =>
    simp only [Env.eval, Expr.calls] at h ⊢
    refine .bind (eval_keeps scopes test h.right.left) fun t => ?_
    split
    · exact eval_keeps scopes body h.left
    · exact eval_keeps scopes otherwise h.right.right

theorem evalAll_keeps (scopes : List Scope) (es : List Expr)
    (h : env.CallsKeep look (Expr.callsAll es)) : Eval.Keeps look (env.evalAll scopes es) := by
  cases es with
  | nil =>
    simp only [Env.evalAll]
    exact .pure []
  | cons e es =>
    simp only [Env.evalAll, Expr.callsAll] at h ⊢
    exact .bind (eval_keeps scopes e h.left) fun v =>
      .bind (evalAll_keeps scopes es h.right) fun vs => .pure _

end

theorem evalText_keeps (scopes : List Scope) {source : String}
    (h : env.CallsKeep look (Expr.callsIn source)) :
      Eval.Keeps look (env.evalText scopes source) := by
  unfold Env.evalText
  unfold Expr.callsIn at h
  cases hparse : Expr.parse source with
  | ok e =>
    rw [hparse] at h
    exact eval_keeps scopes e h
  | error e => exact .ofExcept (.error (.parse e))

theorem condition_keeps (scopes : List Scope) {source : String}
    (h : env.CallsKeep look (Expr.callsIn source)) :
      Eval.Keeps look (env.condition scopes source) :=
  .bind (evalText_keeps scopes h) fun v => .pure v.truthy

end Env

namespace Render

def Keeps (look : Scene → γ) (m : Render α) : Prop :=
  ∀ stage, look (m.run stage).2.scene = look stage.scene

namespace Keeps

theorem pure (a : α) : Keeps look (Pure.pure a : Render α) :=
  fun _ => rfl

theorem bind {m : Render α} {f : α → Render β} (hm : Keeps look m) (hf : ∀ a, Keeps look (f a)) :
    Keeps look (m >>= f) :=
  fun stage => (hf (m.run stage).1 (m.run stage).2).trans (hm stage)

theorem evaluate {f : List Scope → Eval α} (hf : ∀ scopes, Eval.Keeps look (f scopes)) :
    Keeps look (Render.evaluate f) :=
  fun stage => hf stage.scopes stage.scene

theorem modify {f : Stage → Stage} (hf : ∀ stage, (f stage).scene = stage.scene) :
    Keeps look (modifyThe Stage f : Render Unit) :=
  fun stage => congrArg look (hf stage)

theorem assign (name : String) (v : Value) : Keeps look (Render.assign name v) := by
  refine modify fun stage => ?_
  obtain ⟨scopes, scene⟩ := stage
  cases scopes <;> rfl

theorem each {body : Render String} (hbody : Keeps look body) (var : String) (length : Nat)
    (vs : List Value) (index : Nat) : Keeps look (Render.each var length body index vs) := by
  induction vs generalizing index with
  | nil => exact .pure ""
  | cons v vs ih =>
    refine .bind (.modify fun _ => rfl) fun _ => .bind hbody fun out => ?_
    exact .bind (.modify fun _ => rfl) fun _ => .bind (ih _) fun rest => .pure _

end Keeps

end Render

namespace Env

variable {env : Env}

theorem output_keeps {content : String} (source : String)
    (h : env.CallsKeep look (Expr.callsIn (env.outputSource content))) :
    Render.Keeps look (env.output content source) := by
  unfold Expr.callsIn at h
  unfold Env.output
  cases hparse : Expr.parse (env.outputSource content) with
  | ok e =>
    rw [hparse] at h
    refine .bind (.evaluate fun scopes => eval_keeps scopes e h) fun r => ?_
    split <;> exact .pure _
  | error e => exact .pure _

mutual

theorem renderNode_keeps (n : Node) (h : env.CallsKeep look (env.nodeCalls n)) :
    Render.Keeps look (env.renderNode n) := by
  cases n with
  | text s =>
    simp only [Env.renderNode]
    exact .pure s
  | output content source =>
    simp only [Env.renderNode, nodeCalls] at h ⊢
    exact output_keeps source h
  | cond test body arms =>
    simp only [Env.renderNode, nodeCalls] at h ⊢
    refine .bind (.evaluate fun scopes => condition_keeps scopes h.left) fun r => ?_
    split
    · exact renderNodes_keeps body h.right.left
    · exact renderArms_keeps arms h.right.right
    · exact .pure _
  | loop var iterable body =>
    simp only [Env.renderNode, nodeCalls] at h ⊢
    refine .bind (.evaluate fun scopes => evalText_keeps scopes h.left) fun r => ?_
    split
    · exact .pure _
    · split
      · exact .pure _
      · exact .each (renderNodes_keeps body h.right) var _ _ 0
  | assign name expr =>
    simp only [Env.renderNode, nodeCalls] at h ⊢
    refine .bind (.evaluate fun scopes => evalText_keeps scopes h) fun r => ?_
    split
    · exact .bind (.assign name _) fun _ => .pure _
    · exact .pure _
  | run expr =>
    simp only [Env.renderNode, nodeCalls] at h ⊢
    refine .bind (.evaluate fun scopes => evalText_keeps scopes h) fun r => ?_
    split <;> exact .pure _
  | error e =>
    simp only [Env.renderNode]
    exact .pure _

theorem renderNodes_keeps (ns : List Node) (h : env.CallsKeep look (env.calls ns)) :
    Render.Keeps look (env.renderNodes ns) := by
  cases ns with
  | nil =>
    simp only [Env.renderNodes]
    exact .pure ""
  | cons n ns =>
    simp only [Env.renderNodes, calls] at h ⊢
    exact .bind (renderNode_keeps n h.left) fun out =>
      .bind (renderNodes_keeps ns h.right) fun rest => .pure _

theorem renderArms_keeps (arms : Arms) (h : env.CallsKeep look (env.armCalls arms)) :
    Render.Keeps look (env.renderArms arms) := by
  cases arms with
  | done =>
    simp only [Env.renderArms]
    exact .pure ""
  | otherwise body =>
    simp only [Env.renderArms, armCalls] at h ⊢
    exact renderNodes_keeps body h
  | elif test body arms =>
    simp only [Env.renderArms, armCalls] at h ⊢
    refine .bind (.evaluate fun scopes => condition_keeps scopes h.left) fun r => ?_
    split
    · exact renderNodes_keeps body h.right.left
    · exact renderArms_keeps arms h.right.right
    · exact .pure _

end

end Env

/-- All functions but `random` leave the source of chance. -/
theorem Builtin.call_chance {f : Builtin} (h : f ≠ .random) (args : List Value) (s : Scene) :
    (f.call args s).2 = s.chance := by
  unfold Builtin.call
  split
  all_goals first | rfl | exact absurd rfl h

theorem Builtin.ne_random_of_ofName? {name : String} {f : Builtin}
    (h : Builtin.ofName? name = some f) (hname : name ≠ Builtin.random.name) : f ≠ .random := by
  have hf : f.name = name := by simpa using List.find?_some h
  rintro rfl
  exact hname hf.symm

namespace Env.VerbFree

variable {env : Env} {names : List String}

theorem keep_state (h : env.VerbFree names) : env.CallsKeep Scene.state names := by
  intro name hname args s
  rw [Env.apply, if_neg (by simp [h name hname])]
  split <;> rfl

theorem keep_scene (h : env.VerbFree names) (hrandom : Builtin.random.name ∉ names) :
    env.CallsKeep id names := by
  intro name hname args s
  rw [Env.apply, if_neg (by simp [h name hname])]
  split
  · next f hf =>
    have hne : name ≠ Builtin.random.name := fun he => hrandom (he ▸ hname)
    have hchance := Builtin.call_chance (Builtin.ne_random_of_ofName? hf hne) args s
    change ({ s with chance := (f.call args s).2 } : Scene) = s
    rw [hchance]
  · rfl

end Env.VerbFree

end Narrative
