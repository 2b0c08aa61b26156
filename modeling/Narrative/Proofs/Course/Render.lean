import Narrative.Proofs.Course.Eval

/-! Rendering is a plan too: from the local names that it starts with, a template asks the same of
the verbs however they are run. -/

namespace Narrative

variable {α β : Type} {R : Scene → Scene → Prop}

def Stage.ofOutcome (x : (α × List Scope) × Scene) : α × Stage :=
  (x.1.1, ⟨x.1.2, x.2⟩)

namespace Render

/-- From the local names `scopes`, and whatever answers its calls, the step does what the plan
says. -/
def Plans (m : Call → Render α) (scopes : List Scope) (p : Plan (α × List Scope)) : Prop :=
  ∀ call s, (m call).run ⟨scopes, s⟩ = Stage.ofOutcome (p.run call s)

def Planned (m : Call → Render α) : Prop :=
  ∀ scopes, ∃ p, Plans m scopes p

theorem Planned.pure (a : α) : Planned fun _ => (Pure.pure a : Render α) :=
  fun scopes => ⟨.done (a, scopes), fun _ _ => rfl⟩

theorem Planned.bind {m : Call → Render α} {f : Call → α → Render β} (hm : Planned m)
    (hf : ∀ a, Planned fun call => f call a) : Planned fun call => m call >>= f call := by
  intro scopes
  obtain ⟨p, hp⟩ := hm scopes
  choose q hq using fun x : α × List Scope => hf x.1 x.2
  refine ⟨p.bind q, fun call s => ?_⟩
  have h : (m call >>= f call).run ⟨scopes, s⟩
      = (f call ((m call).run ⟨scopes, s⟩).1).run ((m call).run ⟨scopes, s⟩).2 := rfl
  rw [h, hp call s, Plan.run_bind]
  exact hq (p.run call s).1 call (p.run call s).2

theorem Planned.evaluate {f : Call → List Scope → Eval α}
    (hf : ∀ scopes, Eval.Planned fun call => f call scopes) :
    Planned fun call => Render.evaluate (f call) := by
  intro scopes
  obtain ⟨p, hp⟩ := hf scopes
  refine ⟨p.bind fun r => .done (r, scopes), fun call s => ?_⟩
  rw [Plan.run_bind, ← hp call s]
  rfl

theorem Planned.modify {f : Stage → Stage} (g : List Scope → List Scope)
    (hf : ∀ scopes s, f ⟨scopes, s⟩ = ⟨g scopes, s⟩) :
    Planned fun _ => (modifyThe Stage f : Render Unit) :=
  fun scopes => ⟨.done ((), g scopes), fun _ s => congrArg (Prod.mk ()) (hf scopes s)⟩

theorem Planned.assign (name : String) (v : Value) : Planned fun _ => Render.assign name v := by
  refine .modify (List.modifyHead (·.insert name v)) fun scopes s => ?_
  cases scopes <;> rfl

theorem Planned.each {body : Call → Render String} (hbody : Planned body) (var : String)
    (length : Nat) (vs : List Value) (index : Nat) :
    Planned fun call => Render.each var length (body call) index vs := by
  induction vs generalizing index with
  | nil => exact .pure _
  | cons v vs ih =>
    refine .bind (.modify (List.cons _) fun _ _ => rfl) fun _ => .bind hbody fun out => ?_
    exact .bind (.modify List.tail fun _ _ => rfl) fun _ => .bind (ih _) fun rest => .pure _

theorem Planned.follows {m : Call → Render α} (hm : Planned m) (hR : Course R) {call : Call}
    (hcall : call.Follows R) (stage : Stage) : R stage.scene ((m call).run stage).2.scene := by
  obtain ⟨p, hp⟩ := hm stage.scopes
  have h : (m call).run stage = Stage.ofOutcome (p.run call stage.scene) := hp call stage.scene
  rw [h]
  exact p.run_follows hR hcall stage.scene

end Render

namespace Env

variable (env : Env)

theorem output_planned (content source : String) :
    Render.Planned fun call => (env.answering call).output content source := by
  have hsource (call : Call) : (env.answering call).outputSource content =
    env.outputSource content := rfl
  cases hparse : Expr.parse (env.outputSource content) with
  | ok e =>
    simp only [Env.output, hsource, hparse]
    refine .bind (.evaluate fun scopes => eval_planned env scopes e) fun r => ?_
    split <;> exact .pure _
  | error e =>
    simp only [Env.output, hsource, hparse]
    exact .pure (if env.isForeign content then source else errorText e.message)

mutual

theorem renderNode_planned (n : Node) :
    Render.Planned fun call => (env.answering call).renderNode n := by
  cases n with
  | text s => simpa only [Env.renderNode] using Render.Planned.pure s
  | output content source => simpa only [Env.renderNode] using output_planned env content source
  | cond test body arms =>
    simp only [Env.renderNode]
    refine .bind (.evaluate fun scopes => condition_planned env scopes test) fun r => ?_
    split
    · exact renderNodes_planned body
    · exact renderArms_planned arms
    · exact .pure _
  | loop var iterable body =>
    simp only [Env.renderNode]
    refine .bind (.evaluate fun scopes => evalText_planned env scopes iterable) fun r => ?_
    split
    · exact .pure _
    · split
      · exact .pure _
      · exact .each (renderNodes_planned body) var _ _ 0
  | assign name expr =>
    simp only [Env.renderNode]
    refine .bind (.evaluate fun scopes => evalText_planned env scopes expr) fun r => ?_
    split
    · exact .bind (.assign name _) fun _ => .pure _
    · exact .pure _
  | run expr =>
    simp only [Env.renderNode]
    refine .bind (.evaluate fun scopes => evalText_planned env scopes expr) fun r => ?_
    split <;> exact .pure _
  | error e => simpa only [Env.renderNode] using Render.Planned.pure (errorText e.message)

theorem renderNodes_planned (ns : List Node) :
    Render.Planned fun call => (env.answering call).renderNodes ns := by
  cases ns with
  | nil => simpa only [Env.renderNodes] using Render.Planned.pure ""
  | cons n ns =>
    simp only [Env.renderNodes]
    exact .bind (renderNode_planned n) fun out =>
      .bind (renderNodes_planned ns) fun rest => .pure _

theorem renderArms_planned (arms : Arms) :
    Render.Planned fun call => (env.answering call).renderArms arms := by
  cases arms with
  | done => simpa only [Env.renderArms] using Render.Planned.pure ""
  | otherwise body => simpa only [Env.renderArms] using renderNodes_planned body
  | elif test body arms =>
    simp only [Env.renderArms]
    refine .bind (.evaluate fun scopes => condition_planned env scopes test) fun r => ?_
    split
    · exact renderNodes_planned body
    · exact renderArms_planned arms
    · exact .pure _

end

theorem render_planned (text : String) :
    Render.Planned fun call => (env.answering call).render text :=
  renderNodes_planned env _

theorem render_follows {env : Env} (hR : Course R) (hcall : env.call.Follows R) (text : String)
    (stage : Stage) : R stage.scene ((env.render text).run stage).2.scene :=
  (render_planned env text).follows hR hcall stage

end Env

end Narrative
