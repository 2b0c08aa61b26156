import Narrative.Proofs.Session.Run
import Narrative.Proofs.Verb.Local

/-! The history of a session. No verb and no rendering writes into it: what a chosen function says
is put at its end, and nothing else ever is. -/

namespace Narrative

/-- What an action that ended so has to write into the history. -/
def Status.entries : Status → List String
  | .ok (some m) => [m]
  | _ => []

namespace Session

def KeepsHistory (s t : Scene) : Prop :=
  t.state.history = s.state.history

theorem keepsHistory_course : Course KeepsHistory where
  refl _ := rfl
  trans h h' := Eq.trans h' h
  draw _ _ := rfl

theorem keepsHistory_core : CoreVerb.Follow KeepsHistory := by
  intro v args s
  have hframe := (v.run_local args).frame s.state
  exact (congrArg State.history hframe).trans (Part.history_put _ s.state)

variable {s : Session}

/-- From `s`, an action writes what it has to into the history. -/
def Writes (s : Session) (m : Playing Status) : Prop :=
  (m.run s).2.state.history = s.state.history ++ (m.run s).1.entries

theorem Writes.pure {status : Status} (h : status.entries = []) : Writes s (pure status) := by
  have hsame : s.state.history = s.state.history ++ [] := (List.append_nil _).symm
  rwa [← h] at hsame

theorem Writes.get {f : Session → Playing Status} (h : Writes s (f s)) : Writes s (get >>= f) :=
  h

theorem runCall_writes (hcall : s.registry.call.Follows KeepsHistory) (call : String) :
    Writes s (runCall call) := by
  have hcall' : (s.registry.env ∅).call.Follows KeepsHistory := hcall
  have h := Env.evalText_follows keepsHistory_course hcall' [∅] call s.scene
  change (runCall call s).2.state.history = s.state.history ++ (runCall call s).1.entries
  unfold runCall
  rcases hv : ((s.registry.env ∅).evalText [∅] call).run s.scene with ⟨e | v, t⟩ <;> rw [hv] at h
  · exact h.trans (List.append_nil _).symm
  · dsimp only
    split
    · exact h.trans (List.append_nil _).symm
    · exact congrArg (· ++ [v.display]) h

theorem runFunction_writes (hcall : s.registry.call.Follows KeepsHistory) (payload : String) :
    Writes s (runFunction payload) := by
  refine .get ?_
  split
  · exact .pure rfl
  · split
    · exact runCall_writes hcall _
    · exact .pure rfl

theorem travel_history (target : String) :
    ((travel target).run s).2.state.history = s.state.history := by
  unfold travel
  split <;> rfl

/-- What a request writes into the history: what a function says that the player chose, if it says
something. -/
def recorded (s : Session) : Request → List String
  | .act kind payload => if kind = "function" then (act kind payload s).1.entries else []
  | _ => []

def log (s : Session) : List Request → List String
  | [] => []
  | q :: requests => s.recorded q ++ log (s.handle q) requests

theorem act_history (hcall : s.registry.call.Follows KeepsHistory) (kind : String)
    (payload : Option String) :
    (act kind payload s).2.state.history = s.state.history ++ s.recorded (.act kind payload) := by
  unfold recorded
  dsimp only
  by_cases hkind : kind = "function"
  · subst hkind
    rw [if_pos rfl]
    exact runFunction_writes hcall _
  · rw [if_neg hkind, List.append_nil]
    unfold act
    split
    · exact travel_history _
    · exact absurd rfl hkind
    · rfl

theorem handle_history (hr : s.registry.IsPlain) (q : Request) :
    (s.handle q).state.history = s.state.history ++ s.recorded q := by
  have hcall := Registry.call_follows keepsHistory_course keepsHistory_core hr
  cases q with
  | execute verb args =>
    exact (execute_follows hcall verb args s rfl).2.trans (List.append_nil _).symm
  | parse text =>
    exact (parse_follows keepsHistory_course hcall text s rfl).2.trans (List.append_nil _).symm
  | render =>
    exact (render_follows keepsHistory_course hcall s rfl).2.trans (List.append_nil _).symm
  | act kind payload => exact act_history hcall kind payload

theorem history_run (hr : s.registry.IsPlain) (requests : List Request) :
    (s.run requests).state.history = s.state.history ++ s.log requests := by
  induction requests generalizing s with
  | nil => exact (List.append_nil _).symm
  | cons q requests ih =>
    have hr' : (s.handle q).registry.IsPlain := s.run_registry [q] ▸ hr
    calc ((s.handle q).run requests).state.history
        = (s.handle q).state.history ++ (s.handle q).log requests := ih hr'
      _ = s.state.history ++ s.log (q :: requests) := by
        rw [handle_history hr, List.append_assoc, log]

/-- Each request of a run leaves in the history what was there, and adds what a function says that
the player chose: one entry, or none if it fails or says nothing. What the history has once been it
goes on from. -/
theorem run_history {start : Session} (hr : start.registry.IsPlain) (past later : List Request)
    (q : Request) :
    let s := start.run past
    (s.handle q).state.history = s.state.history ++ s.recorded q ∧
      (s.run later).state.history = s.state.history ++ s.log later ∧
      s.state.history <+: (start.run (past ++ later)).state.history := by
  intro s
  have hs : s.registry.IsPlain := (start.run_registry past).symm ▸ hr
  have hlater := history_run hs later
  have hrun : start.run (past ++ later) = s.run later := List.foldl_append
  refine ⟨handle_history hs q, hlater, ?_⟩
  rw [hrun, hlater]
  exact List.prefix_append _ _

theorem run_history_gift :
    let start : Session := ⟨"game", {}, Registry.core, ⟨{}, ⟨7⟩⟩⟩
    let gift : Request := .act "function" (some "give_gold 5")
    let s := start.run [gift]
    start.registry.IsPlain ∧ start.recorded gift = ["Received 5 gold."] ∧
      (s.handle gift).state.history = s.state.history ++ s.recorded gift ∧
      (s.run [gift]).state.history = s.state.history ++ s.log [gift] ∧
      s.state.history <+: (start.run ([gift] ++ [gift])).state.history := by
  intro start gift s
  have hsaid : start.recorded gift = ["Received 5 gold."] := by decide +kernel
  exact ⟨Registry.core_isPlain, hsaid, run_history Registry.core_isPlain [gift] [gift] gift⟩

end Session

end Narrative
