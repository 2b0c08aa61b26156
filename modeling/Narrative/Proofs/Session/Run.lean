import Narrative.Proofs.Addon.Scripted
import Narrative.Proofs.Course.Session
import Narrative.Proofs.State.Sound

/-! Runs of a session. Whatever is asked of a session whose add-ons only have scripts, its state
stays sound. -/

namespace Narrative

namespace Session

inductive Request where
  | execute (verb : String) (args : List Value)
  | parse (text : String)
  | render
  | act (kind : String) (payload : Option String)

def handle (s : Session) : Request → Session
  | .execute verb args => (execute verb args s).2
  | .parse text => (parse text s).2
  | .render => (render s).2
  | .act kind payload => (act kind payload s).2

def run (s : Session) (requests : List Request) : Session :=
  requests.foldl handle s

variable {R : Scene → Scene → Prop} {r : Registry}

theorem handle_follows (hR : Course R) (hr : r.call.Follows R) (hT : Travels R) (q : Request)
    {s : Session} (hs : s.registry = r) :
    (s.handle q).registry = r ∧ R s.scene (s.handle q).scene := by
  cases q with
  | execute verb args => exact execute_follows hr verb args s hs
  | parse text => exact parse_follows hR hr text s hs
  | render => exact render_follows hR hr s hs
  | act kind payload => exact act_follows hR hr hT kind payload s hs

theorem run_follows (hR : Course R) (hr : r.call.Follows R) (hT : Travels R)
    (requests : List Request) {s : Session} (hs : s.registry = r) :
    R s.scene (s.run requests).scene := by
  induction requests generalizing s with
  | nil => exact hR.refl s.scene
  | cons q requests ih =>
    obtain ⟨hs', h⟩ := handle_follows hR hr hT q hs
    exact hR.trans h (ih hs')

theorem run_registry (s : Session) (requests : List Request) :
    (s.run requests).registry = s.registry := by
  have hR : Course fun _ _ => True := ⟨fun _ => trivial, fun _ _ => trivial, fun _ _ => trivial⟩
  have hT : Travels fun _ _ => True := ⟨fun _ _ => trivial, fun _ _ => trivial⟩
  refine List.foldlRecOn (motive := fun t => t.registry = s.registry) requests handle rfl
    fun t ht q _ => ?_
  exact (handle_follows hR (fun _ _ _ => trivial) hT q ht).1

def KeepsSound (s t : Scene) : Prop :=
  s.state.Sound → t.state.Sound

theorem keepsSound_course : Course KeepsSound :=
  .of_state State.Sound

theorem keepsSound_core : CoreVerb.Follow KeepsSound :=
  fun v args s => (v.change_of_run args s.state).sound

theorem keepsSound_travels : Travels KeepsSound where
  move _ _ h := ⟨h.player, h.inventory, h.time⟩
  record _ _ h := ⟨h.player, h.inventory, h.time⟩

/-- A story that starts as its world says stays sound, whatever verbs scripts add and whatever is
asked of its session. -/
theorem run_sound (o : Opening) (d : Disk) (w : World) (s : State) (addons : List Addon)
    (gameId : String) (world : World) (chance : Chance) (requests : List Request) :
    let verbs := (Extending.load d ∅ w s addons Registry.core).registry
    let start : Session := ⟨gameId, world, verbs, ⟨State.opening o, chance⟩⟩
    (start.run requests).state.Sound := by
  intro verbs start
  have hplain : verbs.IsPlain := Extending.load_isPlain Registry.core_isPlain d w s addons
  have hcall := Registry.call_follows keepsSound_course keepsSound_core hplain
  have hrun := run_follows keepsSound_course hcall keepsSound_travels requests (s := start) rfl
  exact hrun (State.opening_sound o)

end Session

end Narrative
