import Mathlib.Data.List.Basic
import Narrative.Proofs.Course.Dispatch
import Narrative.Session

/-! What the player does in a session keeps to what its verbs, travel and the history keep to. -/

namespace Narrative

variable {α β : Type} {R : Scene → Scene → Prop} {r : Registry}

namespace Playing

/-- Played on the verbs of `r`, a step leaves them as they are and its scenes keep to `R`. -/
def Follows (R : Scene → Scene → Prop) (r : Registry) (m : Playing α) : Prop :=
  ∀ s : Session, s.registry = r → (m.run s).2.registry = r ∧ R s.scene (m.run s).2.scene

theorem Follows.pure (hR : Course R) (a : α) : Follows R r (Pure.pure a : Playing α) :=
  fun s hs => ⟨hs, hR.refl s.scene⟩

theorem Follows.get (hR : Course R) : Follows R r (MonadState.get : Playing Session) :=
  fun s hs => ⟨hs, hR.refl s.scene⟩

theorem Follows.bind (hR : Course R) {m : Playing α} {f : α → Playing β} (hm : Follows R r m)
    (hf : ∀ a, Follows R r (f a)) : Follows R r (m >>= f) := by
  intro s hs
  obtain ⟨hr, h⟩ := hm s hs
  obtain ⟨hr', h'⟩ := hf (m.run s).1 (m.run s).2 hr
  exact ⟨hr', hR.trans h h'⟩

theorem Follows.filterMapM (hR : Course R) {f : α → Playing (Option β)}
    (hf : ∀ a, Follows R r (f a)) (as : List α) : Follows R r (as.filterMapM f) := by
  induction as with
  | nil => exact .pure hR []
  | cons a as ih =>
    rw [List.filterMapM_cons]
    refine .bind hR (hf a) fun b => ?_
    cases b with
    | none => exact ih
    | some b => exact .bind hR ih fun bs => .pure hR (b :: bs)

end Playing

namespace Session

structure Travels (R : Scene → Scene → Prop) : Prop where
  move : ∀ (s : Scene) location, R s { s with state := { s.state with location } }
  record : ∀ (s : Scene) event, R s { s with state := s.state.record event }

theorem env_call (s : Session) (hs : s.registry = r) : s.env.call = r.call :=
  hs ▸ rfl

theorem parse_follows (hR : Course R) (hr : r.call.Follows R) (text : String) :
    (parse text).Follows R r :=
  fun s hs => ⟨hs, Env.render_follows hR (s.env_call hs ▸ hr) text ⟨[∅], s.scene⟩⟩

theorem execute_follows (hr : r.call.Follows R) (verb : String) (args : List Value) :
    (execute verb args).Follows R r :=
  fun s hs => ⟨hs, (hs ▸ hr) verb args s.scene⟩

theorem holds_follows (hR : Course R) (hr : r.call.Follows R) (condition : String) :
    (holds condition).Follows R r :=
  fun s hs => ⟨hs, Env.condition_follows hR (s.env_call hs ▸ hr) [∅] condition s.scene⟩

theorem describe_follows (hR : Course R) (hr : r.call.Follows R) (place : Entity) :
    (describe place).Follows R r :=
  .bind hR (.get hR) fun _ => parse_follows hR hr _

theorem choice_follows (hR : Course R) (hr : r.call.Follows R) (d : Json) :
    (choice d).Follows R r := by
  cases d with
  | table fields =>
    simp only [choice, pure_bind, if_true]
    split
    · refine .bind hR (holds_follows hR hr _) fun shown => ?_
      split
      · exact .bind hR (parse_follows hR hr _) fun text => .pure hR _
      · exact .pure hR none
    · exact .bind hR (parse_follows hR hr _) fun text => .pure hR _
  | _ => exact .pure hR none

theorem presence_follows (hR : Course R) (hr : r.call.Follows R) (id : String) :
    (presence id).Follows R r := by
  refine .bind hR (.get hR) fun s => ?_
  split
  · exact .pure hR none
  · exact .bind hR (parse_follows hR hr _) fun description => .pure hR _

theorem render_follows (hR : Course R) (hr : r.call.Follows R) : render.Follows R r := by
  refine .bind hR (.get hR) fun s => .bind hR (.get hR) fun t => ?_
  split
  · exact .pure hR _
  · exact .bind hR (describe_follows hR hr _) fun description =>
      .bind hR (.filterMapM hR (choice_follows hR hr) _) fun choices =>
        .bind hR (.filterMapM hR (presence_follows hR hr) _) fun presences => .pure hR _

theorem runCall_follows (hR : Course R) (hr : r.call.Follows R) (hT : Travels R) (call : String) :
    (runCall call).Follows R r := by
  intro s hs
  have hcall : (s.registry.env ∅).call.Follows R := hs ▸ hr
  have h := Env.evalText_follows hR hcall [∅] call s.scene
  change (runCall call s).2.registry = r ∧ R s.scene (runCall call s).2.scene
  unfold runCall
  rcases hv : ((s.registry.env ∅).evalText [∅] call).run s.scene with ⟨e | v, t⟩ <;> rw [hv] at h
  · exact ⟨hs, h⟩
  · dsimp only
    split
    · exact ⟨hs, h⟩
    · exact ⟨hs, hR.trans h (hT.record t _)⟩

theorem runFunction_follows (hR : Course R) (hr : r.call.Follows R) (hT : Travels R)
    (payload : String) : (runFunction payload).Follows R r := by
  refine .bind hR (.get hR) fun s => ?_
  split
  · exact .pure hR _
  · split
    · exact runCall_follows hR hr hT _
    · exact .pure hR _

theorem travel_follows (hR : Course R) (hT : Travels R) (target : String) :
    (travel target).Follows R r := by
  unfold travel
  split
  · exact .pure hR _
  · exact fun s hs => ⟨hs, hT.move s.scene target⟩

theorem act_follows (hR : Course R) (hr : r.call.Follows R) (hT : Travels R) (kind : String)
    (payload : Option String) : (act kind payload).Follows R r := by
  unfold act
  split
  · exact travel_follows hR hT _
  · exact runFunction_follows hR hr hT _
  · exact .pure hR _

end Session

end Narrative
