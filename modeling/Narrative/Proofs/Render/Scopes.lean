import Narrative.Proofs.Course.Dispatch

/-! Local names. Rendering binds names in the innermost scope alone and takes away the scopes that
it puts on, however it fails. Verbs see none of the scopes of their callers, and none of their
globals. -/

namespace Narrative

variable {α β : Type}

namespace Render

/-- The step leaves the scopes as they are. -/
def KeepsScopes (m : Render α) : Prop :=
  ∀ stage, (m.run stage).2.scopes = stage.scopes

/-- The step leaves as many scopes as there are, and all of them but the innermost one as they
are. -/
def KeepsOuter (m : Render α) : Prop :=
  ∀ stage, (m.run stage).2.scopes.length = stage.scopes.length ∧
    (m.run stage).2.scopes.tail = stage.scopes.tail

namespace KeepsScopes

theorem pure (a : α) : KeepsScopes (Pure.pure a : Render α) :=
  fun _ => rfl

theorem bind {m : Render α} {f : α → Render β} (hm : KeepsScopes m) (hf : ∀ a, KeepsScopes (f a)) :
    KeepsScopes (m >>= f) :=
  fun stage => (hf (m.run stage).1 (m.run stage).2).trans (hm stage)

theorem evaluate (f : List Scope → Eval α) : KeepsScopes (Render.evaluate f) :=
  fun _ => rfl

theorem outer {m : Render α} (h : KeepsScopes m) : KeepsOuter m :=
  fun stage => ⟨congrArg List.length (h stage), congrArg List.tail (h stage)⟩

/-- What the body of a loop binds is bound in the scope of the turn, which ends with the turn. -/
theorem each {body : Render String} (hbody : KeepsOuter body) (var : String) (length : Nat)
    (vs : List Value) (index : Nat) : KeepsScopes (Render.each var length body index vs) := by
  induction vs generalizing index with
  | nil => exact .pure ""
  | cons v vs ih =>
    intro stage
    -- The body may change the scope on top, which is the one that goes.
    let scope := ((∅ : Scope).insert var v).insert "loop" (loopInfo index length)
    have hturn := (hbody ⟨scope :: stage.scopes, stage.scene⟩).2
    exact (ih (index + 1) _).trans hturn

end KeepsScopes

namespace KeepsOuter

theorem bind {m : Render α} {f : α → Render β} (hm : KeepsOuter m) (hf : ∀ a, KeepsOuter (f a)) :
    KeepsOuter (m >>= f) := by
  intro stage
  have h := hf (m.run stage).1 (m.run stage).2
  exact ⟨h.1.trans (hm stage).1, h.2.trans (hm stage).2⟩

theorem assign (name : String) (v : Value) : KeepsOuter (Render.assign name v) := by
  rintro ⟨scopes, scene⟩
  cases scopes <;> exact ⟨rfl, rfl⟩

end KeepsOuter

end Render

namespace Env

variable {env : Env}

def bound? (env : Env) (scopes : List Scope) (name : String) : Option Value :=
  (scopes.findSome? (·.get? name)).or (env.globals.get? name)

theorem bound?_cons (scope : Scope) (scopes : List Scope) (name : String) :
    env.bound? (scope :: scopes) name = (scope.get? name).or (env.bound? scopes name) := by
  simp only [bound?, List.findSome?_cons]
  cases scope.get? name <;> rfl

theorem lookup_run (scopes : List Scope) (name : String) (s : Scene) :
    (env.lookup scopes name).run s =
      match (env.bound? scopes name).or (s.state.shown? name) with
      | some v => (.ok v, s)
      | none => (.error (.unknownVariable name), s) :=
  rfl

open Render

theorem output_keepsScopes (content source : String) : KeepsScopes (env.output content source) := by
  unfold Env.output
  split
  · refine .bind (.evaluate _) fun r => ?_
    split <;> exact .pure _
  · exact .pure _

theorem loop_keepsScopes (var iterable : String) {body : List Node}
    (hbody : KeepsOuter (env.renderNodes body)) :
    KeepsScopes (env.renderNode (.loop var iterable body)) := by
  rw [Env.renderNode]
  refine .bind (.evaluate _) fun r => ?_
  split
  · exact .pure _
  · split
    · exact .pure _
    · exact .each hbody var _ _ 0

mutual

theorem renderNode_keepsOuter (n : Node) : KeepsOuter (env.renderNode n) := by
  cases n with
  | text s =>
    rw [Env.renderNode]
    exact (KeepsScopes.pure s).outer
  | output content source =>
    rw [Env.renderNode]
    exact (output_keepsScopes content source).outer
  | cond test body arms =>
    rw [Env.renderNode]
    refine .bind (KeepsScopes.evaluate _).outer fun r => ?_
    split
    · exact renderNodes_keepsOuter body
    · exact renderArms_keepsOuter arms
    · exact (KeepsScopes.pure _).outer
  | loop var iterable body =>
    exact (loop_keepsScopes var iterable (renderNodes_keepsOuter body)).outer
  | assign name expr =>
    rw [Env.renderNode]
    refine .bind (KeepsScopes.evaluate _).outer fun r => ?_
    split
    · exact .bind (.assign name _) fun _ => (KeepsScopes.pure _).outer
    · exact (KeepsScopes.pure _).outer
  | run expr =>
    rw [Env.renderNode]
    refine (KeepsScopes.bind (.evaluate _) fun r => ?_).outer
    split <;> exact .pure _
  | error e =>
    rw [Env.renderNode]
    exact (KeepsScopes.pure _).outer

theorem renderNodes_keepsOuter (ns : List Node) : KeepsOuter (env.renderNodes ns) := by
  cases ns with
  | nil =>
    rw [Env.renderNodes]
    exact (KeepsScopes.pure "").outer
  | cons n ns =>
    rw [Env.renderNodes]
    exact .bind (renderNode_keepsOuter n) fun out =>
      .bind (renderNodes_keepsOuter ns) fun rest => (KeepsScopes.pure _).outer

theorem renderArms_keepsOuter (arms : Arms) : KeepsOuter (env.renderArms arms) := by
  cases arms with
  | done =>
    rw [Env.renderArms]
    exact (KeepsScopes.pure "").outer
  | otherwise body =>
    rw [Env.renderArms]
    exact renderNodes_keepsOuter body
  | elif test body arms =>
    rw [Env.renderArms]
    refine .bind (KeepsScopes.evaluate _).outer fun r => ?_
    split
    · exact renderNodes_keepsOuter body
    · exact renderArms_keepsOuter arms
    · exact (KeepsScopes.pure _).outer

end

end Env

namespace Registry

def caller (r : Registry) (running : Nat) (globals : Scope) : Env :=
  ⟨r.contains, r.callAt running, globals⟩

theorem caller_zero (r : Registry) (globals : Scope) : r.caller 0 globals = r.env globals :=
  rfl

/-- What a script comes to as the last of `running` verbs: its body with its parameters as the only
names that are bound. -/
def perform (r : Registry) (running : Nat) (params : List String) (body : String)
    (args : List Value) (s : Scene) : String × Scene :=
  let (words, stage) := ((r.caller running ∅).render body).run ⟨[bindParams params args], s⟩
  (words, stage.scene)

section Caller

variable {r : Registry} {running : Nat} {globals : Scope} {scopes : List Scope} {name : String}
  {args : List Expr} {vs : List Value} {s t : Scene}

/-- Once the arguments have their values, a call takes nothing from the names that the caller
has. -/
theorem eval_call (hargs : ((r.caller running globals).evalAll scopes args).run s = (.ok vs, t)) :
    ((r.caller running globals).eval scopes (.call name args)).run s =
      ((r.caller running ∅).apply name vs).run t := by
  rw [Env.eval, Eval.run_bind, hargs]
  rfl

theorem contains_of_allow {h : Handler} (ha : r.allow name vs running = .ok h) :
    r.contains name = true := by
  unfold allow at ha
  cases hv : r.get? name with
  | none =>
    rw [hv] at ha
    cases ha
  | some v =>
    obtain ⟨e, he, -⟩ := Option.map_eq_some_iff.mp hv
    exact List.any_eq_true.mpr ⟨e, List.mem_of_find?_eq_some he, by simpa using List.find?_some he⟩

theorem eval_call_script {params : List String} {body : String}
    (h : r.allow name vs running = .ok (.script params body))
    (hargs : ((r.caller running globals).evalAll scopes args).run s = (.ok vs, t)) :
    ((r.caller running globals).eval scopes (.call name args)).run s =
      (.ok (.text (r.perform (running + 1) params body vs t).1),
        (r.perform (running + 1) params body vs t).2) := by
  have hverb : (r.caller running ∅).apply name vs = Eval.verb (r.callAt running) name vs :=
    if_pos (contains_of_allow h)
  have hcall : r.callAt running name vs t =
      (.ok (r.perform (running + 1) params body vs t).1,
          (r.perform (running + 1) params body vs t).2) := by
    rw [callAt_eq (Nat.le_of_lt (lt_of_allow h)), h]
    rfl
  rw [eval_call hargs, hverb, Eval.verb, ExceptT.run_mk, hcall]

end Caller

end Registry

/-- Whatever is rendered, and however it fails, no binding leaks: no scope but the innermost one is
changed, a loop, an expression and a call of a verb change none, and callers that have other names
bound get the same of a verb. A script does what its body does with its parameters bound and no
other names. That expressions and calls change no scope says no more than that evaluation is handed
the scopes to read and hands none back. -/
theorem scopes_confined :
    (∀ env : Env, (∀ ns, Render.KeepsOuter (env.renderNodes ns)) ∧
      (∀ var iterable body, Render.KeepsScopes (env.renderNode (.loop var iterable body))) ∧
      (∀ e, Render.KeepsScopes (Render.evaluate fun scopes => env.eval scopes e)) ∧
      ∀ name vs, Render.KeepsScopes (Render.evaluate fun _ => env.apply name vs)) ∧
    ∀ (r : Registry) (running : Nat) (name : String) (vs : List Value) (g : Scope)
      (scopes : List Scope) (args : List Expr) (s t : Scene),
      ((r.caller running g).evalAll scopes args).run s = (.ok vs, t) →
      (∀ (g' : Scope) (scopes' : List Scope) (args' : List Expr) (s' t' : Scene),
        ((r.caller running g').evalAll scopes' args').run s' = (.ok vs, t') →
        t.state = t'.state → t.chance = t'.chance →
        ((r.caller running g).eval scopes (.call name args)).run s =
          ((r.caller running g').eval scopes' (.call name args')).run s') ∧
      ∀ params body, r.allow name vs running = .ok (.script params body) →
        ((r.caller running g).eval scopes (.call name args)).run s =
          (.ok (.text (r.perform (running + 1) params body vs t).1),
            (r.perform (running + 1) params body vs t).2) := by
  refine ⟨fun env => ⟨Env.renderNodes_keepsOuter,
    fun var iterable body => ?_, fun e => ?_, fun name vs => ?_⟩, ?_⟩
  · exact Env.loop_keepsScopes var iterable (Env.renderNodes_keepsOuter body)
  · exact .evaluate _
  · exact .evaluate _
  intro r running name vs g scopes args s t hargs
  refine ⟨fun g' scopes' args' s' t' hargs' hstate hchance => ?_, fun params body h => ?_⟩
  · have ht : t = t' := by
      cases t
      cases t'
      cases hstate
      cases hchance
      rfl
    rw [Registry.eval_call hargs, Registry.eval_call hargs', ht]
  · exact Registry.eval_call_script h hargs

def Registry.dice : Registry :=
  core.register ⟨"roll", .exactly 1, .addon "dice",
    .script ["low"] "\x7b\x7b random(low, 9000000000000000000) \x7d\x7d"⟩

/-- A script that draws a number depends on the source of chance, which is not part of the state. -/
theorem roll_depends_on_chance :
    Registry.dice.allow "roll" [.int 1] 0 =
        .ok (.script ["low"] "\x7b\x7b random(low, 9000000000000000000) \x7d\x7d") ∧
      (Registry.dice.callAt 0 "roll" [.int 1] ⟨{}, ⟨0⟩⟩).1 ≠
        (Registry.dice.callAt 0 "roll" [.int 1] ⟨{}, ⟨1⟩⟩).1 := by
  refine ⟨rfl, fun h => ?_⟩
  have hwords := congrArg Except.toOption h
  revert hwords
  decide +kernel

theorem scopes_confined_roll :
    ((Registry.dice.env ∅).eval [] (.call "roll" [.lit (.int 1)])).run ⟨{}, ⟨0⟩⟩ =
        ((Registry.dice.env ∅).eval [(∅ : Scope).insert "low" (.int 1)]
          (.call "roll" [.var "low"])).run ⟨{}, ⟨0⟩⟩ ∧
      ∃ words scene, ((Registry.dice.env ∅).eval [] (.call "roll" [.lit (.int 1)])).run ⟨{}, ⟨0⟩⟩ =
        (.ok (.text words), scene) := by
  rw [← Registry.caller_zero]
  have h :=
    scopes_confined.2 Registry.dice 0 "roll" [.int 1] ∅ [] [.lit (.int 1)] ⟨{}, ⟨0⟩⟩ ⟨{}, ⟨0⟩⟩ rfl
  refine ⟨h.1 ∅ [(∅ : Scope).insert "low" (.int 1)] [.var "low"] ⟨{}, ⟨0⟩⟩ ⟨{}, ⟨0⟩⟩ rfl rfl rfl,
    ?_⟩
  exact ⟨_, _, h.2 ["low"] "\x7b\x7b random(low, 9000000000000000000) \x7d\x7d" rfl⟩

end Narrative
