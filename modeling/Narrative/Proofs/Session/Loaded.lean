import Narrative.Proofs.State.Accepted
import Narrative.Session.Saving

/-! Whether the state of a saved game that is loaded is within its bounds. -/

namespace Narrative

namespace Snapshot

def statePart (d : Json) : Json :=
  (d.part? 2 "state").getD .null

theorem state_of_ofJson {d : Json} {x : Snapshot} (h : Snapshot.ofJson d = some x) :
    State.ofJson (statePart d) = some x.state := by
  obtain ⟨parts, hparts, h⟩ := Option.bind_eq_some_iff.mp h
  obtain rfl := Json.record?_parts hparts
  simp only [List.mapIdx_cons, List.mapIdx_nil] at h
  split at h
  · next id time state he =>
    obtain ⟨-, he⟩ := List.cons.inj he
    obtain ⟨-, he⟩ := List.cons.inj he
    obtain ⟨hstate, -⟩ := List.cons.inj he
    obtain ⟨_, -, h⟩ := Option.bind_eq_some_iff.mp h
    obtain ⟨_, -, h⟩ := Option.bind_eq_some_iff.mp h
    obtain ⟨s, hs, h⟩ := Option.bind_eq_some_iff.mp h
    cases h
    rw [statePart, hstate]
    exact hs
  · cases h

end Snapshot

namespace Session

theorem outcome_eq_ok {ε : Type} {a : Playing (Except ε Unit)} {x y : Session} :
    a.outcome x = .ok y ↔ a x = (.ok (), y) := by
  unfold Playing.outcome
  rcases a x with ⟨e | ⟨⟩, z⟩
  · exact ⟨fun h => (by cases h), fun h => (by cases h)⟩
  · exact ⟨fun h => (by cases h; rfl), fun h => (by cases h; rfl)⟩

theorem state_of_restore {x y : Session} {saved : Snapshot} (h : x.restore saved = .ok y) :
    y.state = saved.state := by
  have hrun := outcome_eq_ok.mp h
  unfold Playing.restore at hrun
  split at hrun <;> cases hrun
  rfl

theorem exists_of_load {x y : Session} {disk : Disk} {p : Path} (h : x.load disk p = .ok y) :
    ∃ text d saved, disk.readText p = .ok text ∧ Json.read text = some d ∧
      Snapshot.ofJson d = some saved ∧ x.restore saved = .ok y := by
  have hrun := outcome_eq_ok.mp h
  unfold Playing.load at hrun
  split at hrun
  · cases hrun
  · next text htext =>
    split at hrun
    · cases hrun
    · next saved hsaved =>
      obtain ⟨d, hd, hsaved⟩ := Option.bind_eq_some_iff.mp hsaved
      exact ⟨text, d, saved, htext, hd, hsaved, outcome_eq_ok.mpr hrun⟩

/-- Whatever document is accepted, the clock of its state shows a time of day, and the state keeps
to its bounds just if the document does; so it is with a saved game that a session restores, and
with one that it loads from a file. -/
theorem loaded_sound_iff (d : Json) (x y : Session) :
    (∀ s, State.ofJson d = some s →
      s.time.toClockFields.Normal ∧ (s.Sound ↔ State.DocumentSound d)) ∧
    (∀ saved, Snapshot.ofJson d = some saved → x.restore saved = .ok y →
      y.state.time.toClockFields.Normal ∧
        (y.state.Sound ↔ State.DocumentSound (Snapshot.statePart d))) ∧
    ∀ disk p, x.load disk p = .ok y →
      ∃ text e, disk.readText p = .ok text ∧ Json.read text = some e ∧
        y.state.time.toClockFields.Normal ∧
        (y.state.Sound ↔ State.DocumentSound (Snapshot.statePart e)) := by
  have hrestore : ∀ e saved, Snapshot.ofJson e = some saved → x.restore saved = .ok y →
      y.state.time.toClockFields.Normal ∧
        (y.state.Sound ↔ State.DocumentSound (Snapshot.statePart e)) := by
    intro e saved hsaved hy
    rw [state_of_restore hy]
    exact ⟨Clock.normal _, State.sound_iff_document (Snapshot.state_of_ofJson hsaved)⟩
  refine ⟨fun s hs => ⟨Clock.normal _, State.sound_iff_document hs⟩, hrestore d,
    fun disk p hy => ?_⟩
  obtain ⟨text, e, saved, htext, he, hsaved, hy⟩ := exists_of_load hy
  exact ⟨text, e, htext, he, hrestore e saved hsaved hy⟩

def harbor : Session :=
  ⟨"harbor", {}, Registry.core, ⟨{}, ⟨7⟩⟩⟩

/-- A file store with one saved game, its fields by position. -/
def saves : Disk where
  root := .dir [("inn.json", .file
    (.text "[\"harbor\",\"2024-05-01T20:00:00Z\",\x7b\"player\":\x7b\"gold\":12\x7d\x7d]"))]
  working := []

/-- A state, a saved game and a file of which the player has twelve gold and the default health. -/
theorem loaded_sound_iff_gold :
    let d : Json := .table [("player", .table [("gold", .int 12)])]
    let e : Json := .list [.text "harbor", .text "2024-05-01T20:00:00Z", d]
    (∃ s, State.ofJson d = some s ∧ s.Sound) ∧
    (∃ x y, Snapshot.ofJson e = some x ∧ harbor.restore x = .ok y ∧ y.state.Sound) ∧
    ∃ y, harbor.load saves ⟨"inn.json"⟩ = .ok y ∧ y.state.Sound := by
  intro d e
  have hd : State.DocumentSound d := ⟨by decide, by decide, by decide, by decide, by decide⟩
  let s : State := { player := { gold := 12 } }
  let y : Session := harbor.setState s
  have hstate : State.ofJson d = some s := rfl
  have hsaved : Snapshot.ofJson e = some ⟨"harbor", ⟨⟨2024, 5, 1⟩, 20, 0, 0, 0⟩, s⟩ := rfl
  have hrestore : harbor.restore ⟨"harbor", ⟨⟨2024, 5, 1⟩, 20, 0, 0, 0⟩, s⟩ = .ok y := rfl
  have hload : harbor.load saves ⟨"inn.json"⟩ = .ok y := rfl
  obtain ⟨-, hsecond, hthird⟩ := loaded_sound_iff e harbor y
  refine ⟨⟨s, hstate, ((loaded_sound_iff d harbor y).1 s hstate).2.mpr hd⟩,
    ⟨_, y, hsaved, hrestore, (hsecond _ hsaved hrestore).2.mpr hd⟩, y, hload, ?_⟩
  obtain ⟨text, f, htext, hf, -, hiff⟩ := hthird _ _ hload
  cases htext
  cases hf
  exact hiff.mpr hd

def forged : String :=
  "\x7b\"player\":\x7b\"gold\":-5\x7d,\"inventory\":[\x7b\"id\":\"coin\",\"count\":0\x7d]\x7d"

theorem not_loaded_sound :
    ∃ d s, Json.read forged = some d ∧ State.ofJson d = some s ∧ s.player.gold.toInt = -5 ∧
      s.inventory = [⟨"coin", 0⟩] ∧ ¬ s.Sound := by
  refine ⟨.table [("player", .table [("gold", .int (-5))]),
      ("inventory", .list [.table [("id", .text "coin"), ("count", .int 0)]])],
    { player := { gold := -5 }, inventory := [⟨"coin", 0⟩] }, rfl, rfl, by decide, rfl, fun h => ?_⟩
  exact absurd h.player.gold (by decide)

end Session

end Narrative
