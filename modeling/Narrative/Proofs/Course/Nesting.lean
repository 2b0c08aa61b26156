import Narrative.Proofs.Addon.Scripted

/-! Verbs inside verbs. Here a call raises a counter when its handler starts and lowers it when the
handler ends, as the only record of how many verbs are running. A plan then comes to an end from
every scene, with what it comes to when the number of running verbs is handed down instead. The
counter is right at every call and back after it, and never passes the limit. -/

namespace Narrative

/-- A scene with the counter of running verbs. -/
structure Sandbox where
  scene : Scene
  depth : Nat

/-- A call that was made while `running` verbs were running: the counter before and after it,
whether a handler was started for it, and its answer. -/
structure CallRecord where
  name : String
  args : List Value
  running : Nat
  before : Nat
  after : Nat
  started : Bool
  answer : Except VerbError String

namespace Registry

/-- A plan is carried out with `running` verbs running, from one sandbox to another, by the listed
calls. The counter alone decides which calls are let through. -/
inductive Performs (r : Registry) :
    {α : Type} → Nat → Plan α → Sandbox → α → Sandbox → List CallRecord → Prop where
  | done {α running b} {a : α} : Performs r running (.done a) b a b []
  | look {α running b b' calls} {a : α} {next : Scene → Plan α}
      (h : Performs r running (next b.scene) b a b' calls) :
        Performs r running (.look next) b a b' calls
  | draw {α running b b' calls chance} {a : α} {next : Plan α}
      (h : Performs r running next { b with scene := { b.scene with chance } } a b' calls) :
      Performs r running (.draw chance next) b a b' calls
  | refused {α running b b' calls name args e} {a : α} {next : Except VerbError String → Plan α}
      (he : r.allow name args b.depth = .error e)
      (h : Performs r running (next (.error e)) b a b' calls) :
      Performs r running (.call name args next) b a b'
        (⟨name, args, running, b.depth, b.depth, false, .error e⟩ :: calls)
  | core {α running b b' calls name args v answer state} {a : α}
      {next : Except VerbError String → Plan α} (hv : r.allow name args b.depth = .ok (.core v))
      (hrun : (v.run ⟨name, args⟩).run b.scene.state = (answer, state))
      (h : Performs r running (next answer) ⟨{ b.scene with state }, b.depth + 1 - 1⟩ a b' calls) :
      Performs r running (.call name args next) b a b'
        (⟨name, args, running, b.depth, b.depth + 1 - 1, true, answer⟩ :: calls)
  | script {α running b m b' inner calls name args params body words scopes} {a : α}
      {next : Except VerbError String → Plan α} {p : Plan (String × List Scope)}
      (hv : r.allow name args b.depth = .ok (.script params body))
      (hp : Render.Plans
        (fun call => Env.render ⟨r.contains, call, ∅⟩ body) [bindParams params args] p)
      (hbody : Performs r (running + 1) p ⟨b.scene, b.depth + 1⟩ (words, scopes) m inner)
      (h : Performs r running (next (.ok words)) ⟨m.scene, m.depth - 1⟩ a b' calls) :
      Performs r running (.call name args next) b a b'
        (⟨name, args, running, b.depth, m.depth - 1, true, .ok words⟩ :: inner ++ calls)

/-- A template is rendered with `running` verbs running, from the local names `scopes`. -/
def Renders (r : Registry) (running : Nat) (globals : Scope) (text : String) (scopes : List Scope)
    (b : Sandbox) (out : String × List Scope) (b' : Sandbox) (calls : List CallRecord) : Prop :=
  ∃ p, Render.Plans (fun call => Env.render ⟨r.contains, call, globals⟩ text) scopes p ∧
    r.Performs running p b out b' calls

end Registry

/-- The counter tells how many verbs are running, within the limit, and is put back. A call that
could be let through is refused for depth if and only if as many verbs as can be are running. -/
structure CallRecord.Kept (r : Registry) (c : CallRecord) : Prop where
  counted : c.before = c.running
  restored : c.after = c.before
  within : c.running ≤ callLimit
  started_within : c.started → c.running + 1 ≤ callLimit
  tooDeep_iff : (∃ v, r.get? c.name = some v ∧ v.arity.accepts c.args.length) →
    (c.answer = .error (.tooDeep c.name) ↔ c.running = callLimit)

namespace Registry

variable {α : Type} {r : Registry} {running : Nat} {name : String} {args : List Value}

theorem allow_tooDeep_iff (h : ∃ v, r.get? name = some v ∧ v.arity.accepts args.length)
    (running : Nat) : r.allow name args running = .error (.tooDeep name) ↔ callLimit ≤ running := by
  obtain ⟨v, hv, hn⟩ := h
  simp [allow, hv, hn]

theorem kept_of_refused {e : VerbError} (hl : running ≤ callLimit)
    (he : r.allow name args running = .error e) :
    CallRecord.Kept r ⟨name, args, running, running, running, false, .error e⟩ := by
  refine ⟨rfl, rfl, hl, (fun h => nomatch h), fun h => ?_⟩
  have hlimit : r.allow name args running = .error (.tooDeep name) ↔ callLimit ≤ running :=
    allow_tooDeep_iff h running
  change Except.error e = (.error (.tooDeep name) : Except VerbError String) ↔ running = callLimit
  constructor
  · intro hdeep
    cases hdeep
    exact Nat.le_antisymm hl (hlimit.mp he)
  · intro heq
    have hdeep := hlimit.mpr (Nat.le_of_eq heq.symm)
    rw [he] at hdeep
    cases hdeep
    rfl

theorem kept_of_started {h : Handler} {answer : Except VerbError String}
    (ha : r.allow name args running = .ok h) (hanswer : answer ≠ .error (.tooDeep name)) :
    CallRecord.Kept r ⟨name, args, running, running, running, true, answer⟩ := by
  have hlt := lt_of_allow ha
  exact ⟨rfl, rfl, Nat.le_of_lt hlt, fun _ => hlt, fun _ => iff_of_false hanswer (Nat.ne_of_lt hlt)⟩

/-- Whatever comes of carrying out a plan is what the plan comes to when the number of running verbs
is handed down. The counter is right before and after, and at every call. -/
theorem Performs.sound {p : Plan α} {b b' : Sandbox} {a : α} {calls : List CallRecord}
    (h : r.Performs running p b a b' calls) (hb : b.depth = running) (hl : running ≤ callLimit) :
    p.run (r.callAt running) b.scene = (a, b'.scene) ∧ b'.depth = running ∧
      ∀ c ∈ calls, c.Kept r := by
  induction h with
  | done => exact ⟨rfl, hb, List.forall_mem_nil _⟩
  | look _ ih => exact ih hb hl
  | draw _ ih => exact ih hb hl
  | @refused _ running b _ _ name args e _ next he _ ih =>
    obtain ⟨hout, hdepth, hkept⟩ := ih hb hl
    rw [hb] at he
    have hcall : r.callAt running name args b.scene = (.error e, b.scene) := by
      rw [callAt_eq hl, he]
    refine ⟨?_, hdepth, List.forall_mem_cons.mpr ⟨?_, hkept⟩⟩
    · rw [Plan.run, hcall, hout]
    · rw [hb]
      exact kept_of_refused hl he
  | @core _ running b _ _ name args v answer state _ next hv hrun _ ih =>
    obtain ⟨hout, hdepth, hkept⟩ := ih hb hl
    rw [hb] at hv
    have hcall : r.callAt running name args b.scene = (answer, { b.scene with state }) := by
      rw [callAt_eq hl, hv]
      simp only [handle, hrun]
    have hanswer : answer ≠ .error (.tooDeep name) := by
      rcases v.run_atomic ⟨name, args⟩ b.scene.state with ⟨index, f, hv⟩ | ⟨words, t, hv, _⟩
      all_goals
        rw [hv] at hrun
        cases hrun
        intro h
        cases h
    refine ⟨?_, hdepth, List.forall_mem_cons.mpr ⟨?_, hkept⟩⟩
    · rw [Plan.run, hcall, hout]
    · rw [hb]
      exact kept_of_started hv hanswer
  | @script _ running b m _ inner _ name args params body words scopes _ next p hv hp _ _
      ihbody ih =>
    rw [hb] at hv
    have hlt := lt_of_allow hv
    obtain ⟨hbody, hm, hinner⟩ := ihbody (congrArg (· + 1) hb) hlt
    have hm' : m.depth - 1 = running := by omega
    obtain ⟨hout, hdepth, hkept⟩ := ih hm' hl
    have hcall : r.callAt running name args b.scene = (.ok words, m.scene) := by
      have hrender := hp (r.callAt (running + 1)) b.scene
      rw [hbody] at hrender
      rw [callAt_eq hl, hv]
      simp only [handle, hrender, Stage.ofOutcome]
    refine ⟨?_, hdepth, List.forall_mem_cons.mpr ⟨?_, ?_⟩⟩
    · rw [Plan.run, hcall, hout]
    · rw [hb, hm']
      have hanswer : (.ok words : Except VerbError String) ≠ .error (.tooDeep name) := by
        intro h
        cases h
      exact kept_of_started hv hanswer
    · exact List.forall_mem_append.mpr ⟨hinner, hkept⟩

theorem exists_performs_of (hr : r.IsPlain)
    (hbodies : running < callLimit → ∀ (p : Plan (String × List Scope)) (s : Scene),
      ∃ out t calls, r.Performs (running + 1) p ⟨s, running + 1⟩ out ⟨t, running + 1⟩ calls)
    (p : Plan α) (s : Scene) :
      ∃ a t calls, r.Performs running p ⟨s, running⟩ a ⟨t, running⟩ calls := by
  induction p generalizing s with
  | done a => exact ⟨a, s, [], .done⟩
  | look next ih =>
    obtain ⟨a, t, calls, h⟩ := ih s s
    exact ⟨a, t, calls, .look h⟩
  | draw chance next ih =>
    obtain ⟨a, t, calls, h⟩ := ih { s with chance }
    exact ⟨a, t, calls, .draw h⟩
  | call name args next ih =>
    cases ha : r.allow name args running with
    | error e =>
      obtain ⟨a, t, calls, h⟩ := ih (.error e) s
      exact ⟨a, t, _, .refused ha h⟩
    | ok h =>
      have hplain := hr.allow ha
      cases h with
      | core v =>
        obtain ⟨a, t, calls, h⟩ := ih _ _
        exact ⟨a, t, _, .core ha rfl h⟩
      | script params body =>
        have hplanned := Env.render_planned ⟨r.contains, r.call, ∅⟩ body
        obtain ⟨p, hp⟩ := hplanned [bindParams params args]
        obtain ⟨⟨words, scopes⟩, m, inner, hbody⟩ := hbodies (lt_of_allow ha) p s
        obtain ⟨a, t, calls, h⟩ := ih (.ok words) m
        exact ⟨a, t, _, .script ha hp hbody h⟩
      | native run => cases hplain

/-- Every plan can be carried out to an end, by recursion on the room that is left for verbs inside
verbs. -/
theorem exists_performs (hr : r.IsPlain) (hl : running ≤ callLimit) (p : Plan α) (s : Scene) :
    ∃ a t calls, r.Performs running p ⟨s, running⟩ a ⟨t, running⟩ calls := by
  obtain ⟨room, hroom⟩ := Nat.exists_eq_add_of_le hl
  induction room generalizing α running p s with
  | zero => exact exists_performs_of hr (fun hlt => by omega) p s
  | succ room ih => exact exists_performs_of hr (fun hlt p s => ih hlt p s (by omega)) p s

/-- Rendering comes to an end from every scene and from every number of running verbs within the
limit. What comes of it is one thing only, which is what rendering comes to when the number of
running verbs is handed down; the counter is as before, and it was kept right at every call, however
deep inside scripts. -/
theorem renders_within_limit (hr : r.IsPlain) (globals : Scope) (text : String)
    (scopes : List Scope) (s : Scene) (hl : running ≤ callLimit) : ∃ out scopes' t,
      (Env.render ⟨r.contains, r.callAt running, globals⟩ text).run ⟨scopes, s⟩ =
        (out, ⟨scopes', t⟩) ∧
      (∃ calls, r.Renders running globals text scopes ⟨s, running⟩ (out, scopes')
        ⟨t, running⟩ calls) ∧
      ∀ x b calls, r.Renders running globals text scopes ⟨s, running⟩ x b calls →
        x = (out, scopes') ∧ b = ⟨t, running⟩ ∧ ∀ c ∈ calls, c.Kept r := by
  have hplanned := Env.render_planned ⟨r.contains, r.call, globals⟩ text
  obtain ⟨p, hp⟩ := hplanned scopes
  obtain ⟨⟨out, scopes'⟩, t, calls, h⟩ := exists_performs hr hl p s
  have hrun : p.run (r.callAt running) s = ((out, scopes'), t) := (h.sound rfl hl).1
  have hrender : (Env.render ⟨r.contains, r.callAt running, globals⟩ text).run ⟨scopes, s⟩
      = (out, ⟨scopes', t⟩) := by
    have h := hp (r.callAt running) s
    rwa [hrun] at h
  refine ⟨out, scopes', t, hrender, ⟨calls, p, hp, h⟩, ?_⟩
  rintro x ⟨u, depth⟩ calls' ⟨q, hq, h'⟩
  obtain ⟨hrun', hdepth, hkept⟩ := h'.sound rfl hl
  have hrender' := hq (r.callAt running) s
  rw [hrun'] at hrender'
  have hsame : (x.1, (⟨x.2, u⟩ : Stage)) = (out, ⟨scopes', t⟩) := hrender'.symm.trans hrender
  obtain ⟨words, names⟩ := x
  cases hsame
  cases hdepth
  exact ⟨rfl, rfl, hkept⟩

def endless : Registry :=
  core.register ⟨"again", .exactly 0, .addon "inn", .script [] "\x7b\x7b again() \x7d\x7d"⟩

theorem renders_within_limit_endless :
    endless.IsPlain ∧ 3 ≤ callLimit ∧ ∃ scopes t calls,
      endless.Renders 3 ∅ "\x7b\x7b again() \x7d\x7d" [∅] ⟨⟨{}, ⟨7⟩⟩, 3⟩
        ("[Template Error: again: call depth limit exceeded]", scopes) ⟨t, 3⟩ calls ∧
      ∀ c ∈ calls, c.Kept endless := by
  have hr : endless.IsPlain := core_isPlain.register rfl
  have hl : 3 ≤ callLimit := by decide
  obtain ⟨out, scopes, t, hrender, ⟨calls, h⟩, honly⟩ :=
    renders_within_limit hr ∅ "\x7b\x7b again() \x7d\x7d" [∅] ⟨{}, ⟨7⟩⟩ hl
  have hout : ((Env.render ⟨endless.contains, endless.callAt 3, ∅⟩ "\x7b\x7b again() \x7d\x7d").run
      ⟨[∅], ⟨{}, ⟨7⟩⟩⟩).1 = "[Template Error: again: call depth limit exceeded]" := by
    decide +kernel
  rw [hrender] at hout
  cases hout
  exact ⟨hr, hl, scopes, t, calls, h, (honly _ _ calls h).2.2⟩

end Registry

end Narrative
