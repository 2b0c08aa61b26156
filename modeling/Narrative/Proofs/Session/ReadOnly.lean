import Narrative.Proofs.Render.Calls
import Narrative.Session

/-! Text that calls no verb is read-only: showing it leaves the state as it is, and showing it again
shows the same, as long as no number is drawn for it. So it is with the texts and conditions of a
screen. -/

namespace Narrative

variable {α β γ : Type} {look : Scene → γ}

def Playing.Stays (Q : Session → Prop) (m : Playing α) : Prop :=
  ∀ s, Q s → Q (m.run s).2

namespace Playing.Stays

variable {Q : Session → Prop}

theorem pure (a : α) : Stays Q (Pure.pure a : Playing α) :=
  fun _ hs => hs

theorem bind {m : Playing α} {f : α → Playing β} (hm : Stays Q m) (hf : ∀ a, Stays Q (f a)) :
    Stays Q (m >>= f) :=
  fun s hs => hf (m.run s).1 (m.run s).2 (hm s hs)

theorem get_bind {f : Session → Playing β} (hf : ∀ s, Q s → Stays Q (f s)) : Stays Q (get >>= f) :=
  fun s hs => hf s hs s hs

theorem filterMapM {f : α → Playing (Option β)} {as : List α} (hf : ∀ a ∈ as, Stays Q (f a)) :
    Stays Q (as.filterMapM f) := by
  induction as with
  | nil => exact .pure []
  | cons a as ih =>
    have ih := ih fun b hb => hf b (List.mem_cons_of_mem a hb)
    rw [List.filterMapM_cons]
    refine .bind (hf a List.mem_cons_self) fun b => ?_
    cases b with
    | none => exact ih
    | some b => exact .bind ih fun bs => .pure (b :: bs)

end Playing.Stays

namespace Session

def choiceCalls (s : Session) : Json → List String
  | .table fields =>
    let text? (name : String) := (Json.field? name fields).bind Json.text?
    ((text? "condition").map Expr.callsIn).getD [] ++ s.env.callsIn ((text? "text").getD "Go")
  | _ => []

def presenceCalls (s : Session) (id : String) : List String :=
  match s.world.get? .npc id with
  | none => []
  | some e => s.env.callsIn ((e.text? "description").getD "")

def screenCalls (s : Session) : List String :=
  match s.world.get? .location s.state.location with
  | none => []
  | some e =>
    s.env.callsIn (descriptionText s.state.time.isNight (e.get? "description")) ++
      ((((e.get? "choices").bind Json.list?).getD []).flatMap s.choiceCalls ++
        (e.texts "npcs").flatMap s.presenceCalls)

/-- The sessions that are `s` but for what `look` does not see of the scene. -/
structure Like (look : Scene → γ) (s t : Session) : Prop where
  gameId : t.gameId = s.gameId
  world : t.world = s.world
  registry : t.registry = s.registry
  seen : look t.scene = look s.scene

theorem Like.refl (s : Session) : Like look s s :=
  ⟨rfl, rfl, rfl, rfl⟩

theorem Like.eq {s t : Session} (h : Like id s t) : t = s := by
  obtain ⟨hgame, hworld, hregistry, hscene⟩ := h
  obtain ⟨gameId, world, registry, scene⟩ := t
  cases hgame
  cases hworld
  cases hregistry
  cases hscene
  rfl

section Keep

variable {s : Session} (hlook : ∀ a b, look a = look b → a.state = b.state)

include hlook

theorem Like.state_eq {t : Session} (h : Like look s t) : t.state = s.state :=
  hlook _ _ h.seen

theorem Like.env_eq {t : Session} (h : Like look s t) : t.env = s.env := by
  rw [env, env, locationValue, locationValue, h.registry, h.world, h.state_eq hlook]

theorem parse_stays {text : String} (h : s.env.CallsKeep look (s.env.callsIn text)) :
    Playing.Stays (Like look s) (parse text) := by
  intro t ht
  have hkeep := Env.renderNodes_keeps (Template.parse text) h ⟨[∅], t.scene⟩
  rw [← ht.env_eq hlook] at hkeep
  exact ⟨ht.gameId, ht.world, ht.registry, hkeep.trans ht.seen⟩

theorem holds_stays {condition : String} (h : s.env.CallsKeep look (Expr.callsIn condition)) :
    Playing.Stays (Like look s) (holds condition) := by
  intro t ht
  have hkeep := Env.condition_keeps [∅] h t.scene
  rw [← ht.env_eq hlook] at hkeep
  exact ⟨ht.gameId, ht.world, ht.registry, hkeep.trans ht.seen⟩

theorem choice_stays {d : Json} (h : s.env.CallsKeep look (s.choiceCalls d)) :
    Playing.Stays (Like look s) (choice d) := by
  cases d with
  | table fields =>
    simp only [choiceCalls] at h
    simp only [choice, pure_bind, if_true]
    split
    · next condition hcondition =>
      simp only [hcondition, Option.map_some, Option.getD_some] at h
      refine .bind (holds_stays hlook h.left) fun shown => ?_
      split
      · exact .bind (parse_stays hlook h.right) fun text => .pure _
      · exact .pure none
    · exact .bind (parse_stays hlook h.right) fun text => .pure _
  | _ => exact .pure none

theorem presence_stays {id : String} (h : s.env.CallsKeep look (s.presenceCalls id)) :
    Playing.Stays (Like look s) (presence id) := by
  refine .get_bind fun t ht => ?_
  unfold presenceCalls at h
  rw [ht.world]
  split
  · exact .pure none
  · next e he =>
    simp only [he] at h
    exact .bind (parse_stays hlook h) fun description => .pure _

theorem render_stays (h : s.env.CallsKeep look s.screenCalls) :
    Playing.Stays (Like look s) render := by
  refine .get_bind fun t ht => .get_bind fun u hu => ?_
  unfold screenCalls at h
  rw [hu.world, ht.state_eq hlook]
  split
  · exact .pure _
  · next e he =>
    simp only [he] at h
    refine .bind (.get_bind fun v hv => ?_) fun description => ?_
    · rw [hv.state_eq hlook]
      exact parse_stays hlook h.left
    · exact .bind (.filterMapM fun d hd => choice_stays hlook (h.right.left.of_mem hd))
          fun choices =>
        .bind (.filterMapM fun id hid => presence_stays hlook (h.right.right.of_mem hid))
            fun presences =>
          .pure _

end Keep

/-- What calls no verb leaves the state as it is: any template in any surroundings, any text of a
session and any screen. What draws no number either is the same when it is shown again. -/
theorem verbFree_readOnly :
    (∀ (env : Env) (t : Template), env.VerbFree (env.calls t) →
      ∀ stage, ((env.renderNodes t).run stage).2.scene.state = stage.scene.state) ∧
    (∀ (s : Session) (text : String), s.env.VerbFree (s.env.callsIn text) →
      ((parse text).run s).2.state = s.state ∧
        (Builtin.random.name ∉ s.env.callsIn text →
          (parse text).run ((parse text).run s).2 = (parse text).run s)) ∧
    ∀ s : Session, s.env.VerbFree s.screenCalls →
      (render.run s).2.state = s.state ∧
        (Builtin.random.name ∉ s.screenCalls → render.run (render.run s).2 = render.run s) := by
  refine ⟨fun env t h stage => Env.renderNodes_keeps t h.keep_state stage,
    fun s text h => ?_, fun s h => ?_⟩
  · refine ⟨(parse_stays (fun _ _ h => h) h.keep_state s (.refl s)).seen, fun hrandom => ?_⟩
    have hsame :=
      (parse_stays (fun _ _ => congrArg Scene.state) (h.keep_scene hrandom) s (.refl s)).eq
    rw [hsame]
  · refine ⟨(render_stays (fun _ _ h => h) h.keep_state s (.refl s)).seen, fun hrandom => ?_⟩
    have hsame :=
      (render_stays (fun _ _ => congrArg Scene.state) (h.keep_scene hrandom) s (.refl s)).eq
    rw [hsame]

def taproom : Session :=
  let choice : Json := .table
    [("condition", .text "not has_item('mug')"),
      ("text", .text "Ask for \x7b\x7b 'a ' + \"mug\" \x7d\x7d")]
  let place : Document := (∅ : Document)
    |>.insert "description"
      (.text "\x7b% for i in range(2) %\x7d\x7b\x7b i + 1 \x7d\x7d, \x7b% endfor %\x7d.")
    |>.insert "choices" (.list [choice])
    |>.insert "npcs" (.list [.text "cat"])
  let cat : Document :=
    (∅ : Document).insert "description" (.text "It eyes \x7b\x7b player.name \x7d\x7d.")
  let world : World :=
    { locations := (∅ : Dict Entity).insert "start" ⟨place⟩,
      npcs := (∅ : Dict Entity).insert "cat" ⟨cat⟩ }
  ⟨"game", world, Registry.core, ⟨{}, ⟨7⟩⟩⟩

theorem verbFree_readOnly_taproom :
    let t := Template.parse "\x7b% set n = 3 %\x7d\x7b\x7b n + random(1, 6) \x7d\x7d"
    let text := "\x7b\x7b len(player.name) \x7d\x7d"
    taproom.env.VerbFree (taproom.env.calls t) ∧
      ((taproom.env.renderNodes t).run ⟨[∅], taproom.scene⟩).2.scene.state = taproom.state ∧
      taproom.env.VerbFree (taproom.env.callsIn text) ∧
        Builtin.random.name ∉ taproom.env.callsIn text ∧
      ((parse text).run taproom).2.state = taproom.state ∧
      (parse text).run ((parse text).run taproom).2 = (parse text).run taproom ∧
      taproom.env.VerbFree taproom.screenCalls ∧ Builtin.random.name ∉ taproom.screenCalls ∧
      (render.run taproom).2.state = taproom.state ∧
        render.run (render.run taproom).2 = render.run taproom := by
  intro t text
  have ht : taproom.env.VerbFree (taproom.env.calls t) := by decide +kernel
  have htext : taproom.env.VerbFree (taproom.env.callsIn text) := by decide +kernel
  have hsteady : Builtin.random.name ∉ taproom.env.callsIn text := by decide +kernel
  have hscreen : taproom.env.VerbFree taproom.screenCalls := by decide +kernel
  have hrandom : Builtin.random.name ∉ taproom.screenCalls := by decide +kernel
  obtain ⟨hnodes, hparse, hrender⟩ := verbFree_readOnly
  obtain ⟨hsame, hagain⟩ := hparse taproom text htext
  obtain ⟨hsame', hagain'⟩ := hrender taproom hscreen
  exact ⟨ht, hnodes _ t ht _, htext, hsteady, hsame, hagain hsteady, hscreen, hrandom, hsame',
    hagain' hrandom⟩

end Session

end Narrative
