import Narrative.Proofs.Dict
import Narrative.Proofs.Lint.Visit
import Narrative.Proofs.Render.Scopes
import Narrative.Registry

/-! When the report of an unknown variable is right. What is bound where rendering comes to a site
is what the checks take to be bound there, but for the names that they have lost. -/

namespace Narrative

open Lint Template

namespace Render

variable {α β : Type} {env : Env} {names names' : List String}

/-- Of the names that are bound after the step, it binds none but these. -/
def BindsOnly (env : Env) (names : List String) (m : Render α) : Prop :=
  ∀ stage x, (env.bound? (m.run stage).2.scopes x).isSome →
    (env.bound? stage.scopes x).isSome ∨ x ∈ names

theorem KeepsScopes.bindsOnly {m : Render α} (h : KeepsScopes m) : BindsOnly env names m := by
  intro stage x hx
  rw [h stage] at hx
  exact .inl hx

namespace BindsOnly

theorem bind {m : Render α} {f : α → Render β} (hm : BindsOnly env names m)
    (hf : ∀ a, BindsOnly env names (f a)) : BindsOnly env names (m >>= f) := by
  intro stage x hx
  rcases hf (m.run stage).1 (m.run stage).2 x hx with h | h
  · exact hm stage x h
  · exact .inr h

theorem mono {m : Render α} (hm : BindsOnly env names m) (h : names ⊆ names') :
    BindsOnly env names' m :=
  fun stage x hx => (hm stage x hx).imp_right fun hx => h hx

theorem assign (name : String) (v : Value) : BindsOnly env [name] (Render.assign name v) := by
  rintro ⟨scopes, scene⟩ x hx
  cases scopes with
  | nil => exact .inl hx
  | cons scope outer =>
    change (env.bound? (scope.insert name v :: outer) x).isSome at hx
    rw [Env.bound?_cons, Dict.get?_insert] at hx
    by_cases hname : x = name
    · exact .inr (List.mem_singleton.mpr hname)
    · rw [if_neg hname] at hx
      rw [Env.bound?_cons]
      exact .inl hx

end BindsOnly

end Render

namespace Env

open Render

variable {env : Env}

mutual

theorem renderNode_bindsOnly (n : Node) : BindsOnly env (nodeSets n) (env.renderNode n) := by
  cases n with
  | text s =>
    rw [renderNode]
    exact (KeepsScopes.pure s).bindsOnly
  | output content source =>
    rw [renderNode]
    exact (output_keepsScopes content source).bindsOnly
  | cond test body arms =>
    rw [renderNode]
    refine .bind (KeepsScopes.evaluate _).bindsOnly fun r => ?_
    split
    · exact (renderNodes_bindsOnly body).mono (List.subset_append_left _ _)
    · exact (renderArms_bindsOnly arms).mono (List.subset_append_right _ _)
    · exact (KeepsScopes.pure _).bindsOnly
  | loop var iterable body =>
    exact (loop_keepsScopes var iterable (renderNodes_keepsOuter body)).bindsOnly
  | assign name expr =>
    rw [renderNode]
    refine .bind (KeepsScopes.evaluate _).bindsOnly fun r => ?_
    split
    · exact .bind (.assign name _) fun _ => (KeepsScopes.pure _).bindsOnly
    · exact (KeepsScopes.pure _).bindsOnly
  | run expr =>
    rw [renderNode]
    refine (KeepsScopes.bind (.evaluate _) fun r => ?_).bindsOnly
    split <;> exact .pure _
  | error e =>
    rw [renderNode]
    exact (KeepsScopes.pure _).bindsOnly

theorem renderNodes_bindsOnly (ns : List Node) : BindsOnly env (sets ns) (env.renderNodes ns) := by
  cases ns with
  | nil =>
    rw [renderNodes]
    exact (KeepsScopes.pure "").bindsOnly
  | cons n ns =>
    rw [renderNodes]
    exact .bind ((renderNode_bindsOnly n).mono (List.subset_append_left _ _)) fun out =>
      .bind ((renderNodes_bindsOnly ns).mono (List.subset_append_right _ _)) fun rest =>
        (KeepsScopes.pure _).bindsOnly

theorem renderArms_bindsOnly (arms : Arms) :
    BindsOnly env (armSets arms) (env.renderArms arms) := by
  cases arms with
  | done =>
    rw [renderArms]
    exact (KeepsScopes.pure "").bindsOnly
  | otherwise body =>
    rw [renderArms]
    exact renderNodes_bindsOnly body
  | elif test body arms =>
    rw [renderArms]
    refine .bind (KeepsScopes.evaluate _).bindsOnly fun r => ?_
    split
    · exact (renderNodes_bindsOnly body).mono (List.subset_append_left _ _)
    · exact (renderArms_bindsOnly arms).mono (List.subset_append_right _ _)
    · exact (KeepsScopes.pure _).bindsOnly

end

end Env

namespace Lint

theorem isKnown_cons {x y : String} {bound : List String} :
    isKnown (y :: bound) x = true ↔ x = y ∨ isKnown bound x = true := by
  simp only [isKnown, Bool.or_eq_true, List.contains_cons, beq_iff_eq]
  exact or_left_comm

namespace Names

variable {env : Env} {g : Names} {stage : Stage} {scopes : List Scope}

/-- Whatever is bound is known to the checks, or lost. -/
def Cover (g : Names) (env : Env) (scopes : List Scope) : Prop :=
  ∀ x, (env.bound? scopes x).isSome → isKnown g.bound x = true ∨ x ∈ g.lost

theorem Cover.after (h : g.Cover env stage.scopes) (n : Node) :
    (g.after n).Cover env ((env.renderNode n).run stage).2.scopes := by
  intro x hx
  have hx := env.renderNode_bindsOnly n stage x hx
  -- What a branch binds stays in the scope around its block, where the checks do not look for it.
  cases n with
  | assign name source =>
    rcases hx with hx | hx
    · exact (h x hx).imp_left fun hk => isKnown_cons.mpr (.inr hk)
    · exact .inl (isKnown_cons.mpr (.inl (List.mem_singleton.mp hx)))
  | cond test body arms =>
    rcases hx with hx | hx
    · exact (h x hx).imp_right fun hl => List.mem_append_right _ hl
    · exact .inr (List.mem_append_left _ hx)
  | text | output | loop | run | error => exact h x (hx.resolve_right List.not_mem_nil)

theorem Cover.inLoop (h : g.Cover env scopes) (var : String) (v info : Value) :
    (g.inLoop var).Cover env (((∅ : Scope).insert var v).insert "loop" info :: scopes) := by
  intro x hx
  rw [Env.bound?_cons, Dict.get?_insert, Dict.get?_insert] at hx
  by_cases hloop : x = "loop"
  · exact .inl (isKnown_cons.mpr (.inr (isKnown_cons.mpr (.inl hloop))))
  · by_cases hvar : x = var
    · exact .inl (isKnown_cons.mpr (.inl hvar))
    · rw [if_neg hloop, if_neg hvar] at hx
      exact (h x hx).imp_left fun hk => isKnown_cons.mpr (.inr (isKnown_cons.mpr (.inr hk)))

end Names

end Lint

/-- A visit of one of some sites, where the names of the site cover what is bound. -/
def Visit.Fits (env : Env) (all : List Site) (v : Visit) : Prop :=
  v.site ∈ all ∧ v.site.names.Cover env v.stage.scopes

theorem Visit.Fits.mono {env : Env} {all more : List Site} {v : Visit} (h : v.Fits env all)
    (hs : all ⊆ more) : v.Fits env more :=
  ⟨hs h.1, h.2⟩

namespace Render

/-- Every turn of a loop starts from the scopes around the loop, whatever the turns before it have
bound. -/
theorem forall_visitEach {P : Visit → Prop} {body : Render String} (hbody : KeepsOuter body)
    (var : String) (length : Nat) {visits : Stage → List Visit} {scopes : List Scope}
    (hvisits : ∀ v info scene,
      ∀ w ∈ visits ⟨((∅ : Scope).insert var v).insert "loop" info :: scopes, scene⟩, P w)
    (vs : List Value) (index : Nat) (stage : Stage) (hstage : stage.scopes = scopes) :
    ∀ w ∈ visitEach var length visits body index vs stage, P w := by
  induction vs generalizing index stage with
  | nil => exact List.forall_mem_nil P
  | cons v vs ih =>
    subst hstage
    rw [visitEach, List.forall_mem_append]
    exact ⟨hvisits v _ _, ih (index + 1) _ (hbody _).2⟩

end Render

namespace Env

open Render

variable {env : Env}

theorem visitTest_fits {g : Names} {test : String} {yes no : Stage → List Visit} {all : List Site}
    {stage : Stage} (hg : g.Cover env stage.scopes) (hsite : ⟨.expression test, g⟩ ∈ all)
    (hyes : ∀ stage, g.Cover env stage.scopes → ∀ v ∈ yes stage, v.Fits env all)
    (hno : ∀ stage, g.Cover env stage.scopes → ∀ v ∈ no stage, v.Fits env all) :
    ∀ v ∈ env.visitTest g test yes no stage, v.Fits env all := by
  have hkeeps := KeepsScopes.evaluate (fun scopes => env.condition scopes test) stage
  rw [visitTest, List.forall_mem_cons]
  refine ⟨⟨hsite, hg⟩, ?_⟩
  split
  · next h =>
    rw [h] at hkeeps
    exact hyes _ (hkeeps ▸ hg)
  · next h =>
    rw [h] at hkeeps
    exact hno _ (hkeeps ▸ hg)
  · exact List.forall_mem_nil _

mutual

theorem nodeVisits_fits (g : Names) (n : Node) (stage : Stage) (hg : g.Cover env stage.scopes) :
    ∀ v ∈ env.nodeVisits g n stage, v.Fits env (nodeSites g n) := by
  cases n with
  | text | error =>
    rw [nodeVisits]
    exact List.forall_mem_nil _
  | output | assign | run =>
    rw [nodeVisits, List.forall_mem_singleton]
    exact ⟨List.mem_singleton.mpr rfl, hg⟩
  | cond test body arms =>
    rw [nodeVisits, nodeSites]
    refine visitTest_fits hg List.mem_cons_self (fun stage hg v hv => ?_) fun stage hg v hv => ?_
    · exact (visits_fits g body stage hg v hv).mono fun _ h =>
        List.mem_cons_of_mem _ (List.mem_append_left _ h)
    · exact (armVisits_fits g arms stage hg v hv).mono fun _ h =>
        List.mem_cons_of_mem _ (List.mem_append_right _ h)
  | loop var iterable body =>
    have hkeeps := KeepsScopes.evaluate (fun scopes => env.evalText scopes iterable) stage
    rw [nodeVisits, nodeSites, List.forall_mem_cons]
    refine ⟨⟨List.mem_cons_self, hg⟩, ?_⟩
    split
    · next h =>
      rw [h] at hkeeps
      split
      · refine forall_visitEach (renderNodes_keepsOuter body) var _
          (fun v info scene w hw => ?_) _ 0 _ hkeeps
        exact (visits_fits (g.inLoop var) body _ (hg.inLoop var v info) w hw).mono
          (List.subset_cons_self _ _)
      · exact List.forall_mem_nil _
    · exact List.forall_mem_nil _

theorem visits_fits (g : Names) (ns : List Node) (stage : Stage) (hg : g.Cover env stage.scopes) :
    ∀ v ∈ env.visits g ns stage, v.Fits env (sites g ns) := by
  cases ns with
  | nil =>
    rw [visits]
    exact List.forall_mem_nil _
  | cons n ns =>
    rw [visits, List.forall_mem_append]
    exact ⟨fun v hv => (nodeVisits_fits g n stage hg v hv).mono (List.subset_append_left _ _),
      fun v hv =>
        (visits_fits (g.after n) ns _ (hg.after n) v hv).mono (List.subset_append_right _ _)⟩

theorem armVisits_fits (g : Names) (arms : Arms) (stage : Stage) (hg : g.Cover env stage.scopes) :
    ∀ v ∈ env.armVisits g arms stage, v.Fits env (armSites g arms) := by
  cases arms with
  | done =>
    rw [armVisits]
    exact List.forall_mem_nil _
  | otherwise body =>
    rw [armVisits]
    exact visits_fits g body stage hg
  | elif test body arms =>
    rw [armVisits, armSites]
    refine visitTest_fits hg List.mem_cons_self (fun stage hg v hv => ?_) fun stage hg v hv => ?_
    · exact (visits_fits g body stage hg v hv).mono fun _ h =>
        List.mem_cons_of_mem _ (List.mem_append_left _ h)
    · exact (armVisits_fits g arms stage hg v hv).mono fun _ h =>
        List.mem_cons_of_mem _ (List.mem_append_right _ h)

end

end Env

theorem State.shown?_eq_none {x : String} (h : x ∉ shownNames) (s : State) : s.shown? x = none := by
  unfold shown?
  split <;> first | rfl | exact absurd (by decide) h

namespace Lint

/-- A report of an unknown variable is right where rendering comes to its expression, unless the
name is lost: the name has no value there. The report on a text is made of the faults of its sites,
and rendering depends on its visits only, each of which is at a site. What the caller binds has to
be known to the checks. -/
theorem alarm_true (env : Env) (text : String) (stage : Stage)
    (hcaller : ∀ x, (env.bound? stage.scopes x).isSome → isKnown [] x = true) :
    template env.isVerb text =
        (errors (parse text)).map .template ++ (textSites text).flatMap (Site.faults env.isVerb) ∧
      (∀ env' : Env, (∀ v ∈ env.textVisits text stage, v.Same env env') →
        (env.render text).run stage = (env'.render text).run stage) ∧
      ∀ v ∈ env.textVisits text stage, v.site ∈ textSites text ∧
        ∀ x, .unknownVariable x ∈ v.site.faults env.isVerb → x ∉ v.site.names.lost →
          (env.lookup v.stage.scopes x).run v.stage.scene =
            (.error (.unknownVariable x), v.stage.scene) := by
  refine ⟨template_eq_sites text, fun env' h => Env.render_congr h, fun v hv => ?_⟩
  have hcover : Names.Cover ⟨[], []⟩ env stage.scopes := fun x hx => .inl (hcaller x hx)
  obtain ⟨hsite, hfits⟩ := env.visits_fits ⟨[], []⟩ _ stage hcover v hv
  refine ⟨hsite, fun x hx hlost => ?_⟩
  have hunknown : isKnown v.site.names.bound x = false := Site.unknown hx
  have hbound : env.bound? v.stage.scopes x = none := by
    refine Option.not_isSome_iff_eq_none.mp fun hbound => ?_
    rcases hfits x hbound with h | h
    · rw [hunknown] at h
      cases h
    · exact hlost h
  have hshown : x ∉ State.shownNames := by
    intro h
    rw [isKnown, List.contains_iff_mem.mpr h] at hunknown
    cases hunknown
  rw [Env.lookup_run, hbound, State.shown?_eq_none hshown]
  rfl

theorem alarm_true_loop :
    let env := Registry.core.env ((∅ : Scope).insert "location" .none)
    let stage : Stage := ⟨[∅], ⟨{}, ⟨0⟩⟩⟩
    ∃ v ∈ env.textVisits "\x7b% for x in [1] %\x7d\x7b\x7b z \x7d\x7d\x7b% endfor %\x7d" stage,
      .unknownVariable "z" ∈ v.site.faults env.isVerb ∧
        (env.lookup v.stage.scopes "z").run v.stage.scene =
          (.error (.unknownVariable "z"), v.stage.scene) := by
  intro env stage
  have hcaller : ∀ x, (env.bound? stage.scopes x).isSome → isKnown [] x = true := by
    intro x hx
    change (((∅ : Scope).insert "location" .none).get? x).isSome at hx
    rw [Dict.get?_insert] at hx
    by_cases hlocation : x = "location"
    · rw [hlocation]
      rfl
    · rw [if_neg hlocation] at hx
      cases hx
  have hreported :
    (env.textVisits "\x7b% for x in [1] %\x7d\x7b\x7b z \x7d\x7d\x7b% endfor %\x7d" stage).any
      (fun v => .unknownVariable "z" ∈ v.site.faults env.isVerb ∧
          "z" ∉ v.site.names.lost) = true := by
    decide +kernel
  obtain ⟨v, hv, h⟩ := List.any_eq_true.mp hreported
  obtain ⟨hfault, hlost⟩ := of_decide_eq_true h
  exact ⟨v, hv, hfault, ((alarm_true env _ stage hcaller).2.2 v hv).2 "z" hfault hlost⟩

/-- What a branch has bound is still bound after the block, and is reported all the same. -/
theorem alarm_after_branch :
    let env := Registry.core.env ((∅ : Scope).insert "location" .none)
    let stage : Stage := ⟨[∅], ⟨{}, ⟨0⟩⟩⟩
    let text := "\x7b% if true %\x7d\x7b% set x = 1 %\x7d\x7b% endif %\x7d\x7b\x7b x \x7d\x7d"
    .unknownVariable "x" ∈ template env.isVerb text ∧ ((env.render text).run stage).1 = "1" ∧
      ∃ v ∈ env.textVisits text stage, .unknownVariable "x" ∈ v.site.faults env.isVerb ∧
        ∃ u, (env.lookup v.stage.scopes "x").run v.stage.scene = (.ok u, v.stage.scene) := by
  intro env stage text
  have hreported : (env.textVisits text stage).any
      (fun v => .unknownVariable "x" ∈ v.site.faults env.isVerb ∧
          (env.bound? v.stage.scopes "x").isSome) = true := by
    decide +kernel
  refine ⟨by decide +kernel, by decide +kernel, ?_⟩
  obtain ⟨v, hv, h⟩ := List.any_eq_true.mp hreported
  obtain ⟨hfault, hbound⟩ := of_decide_eq_true h
  obtain ⟨u, hu⟩ := Option.isSome_iff_exists.mp hbound
  refine ⟨v, hv, hfault, u, ?_⟩
  rw [Env.lookup_run, hu]
  rfl

end Lint

end Narrative
