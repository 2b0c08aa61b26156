import Narrative.Proofs.Clock
import Narrative.Proofs.Session.Run

/-! Time in a session. Of all that can be asked of a session whose add-ons only have scripts, the
verb that lets time pass alone moves the clock, so a request moves it on by some minutes. -/

namespace Narrative

namespace Session

def TimePasses (s t : Scene) : Prop :=
  ∃ minutes, t.state.time = s.state.time.advance minutes

theorem timePasses_of_eq {s t : Scene} (h : t.state.time = s.state.time) : TimePasses s t :=
  ⟨0, h.trans (Clock.advance_zero _).symm⟩

theorem timePasses_course : Course TimePasses where
  refl _ := timePasses_of_eq rfl
  trans := by
    rintro s t u ⟨m, ht⟩ ⟨n, hu⟩
    exact ⟨m + n, by rw [hu, ht, Clock.advance_advance]⟩
  draw _ _ := timePasses_of_eq rfl

theorem timePasses_core : CoreVerb.Follow TimePasses := by
  intro v args s
  have h := v.change_of_run args s.state
  generalize ((v.run args).run s.state).2 = t at h
  cases h with
  | pass minutes => exact ⟨minutes, rfl⟩
  | lose id n _ hr =>
    obtain ⟨inv, -, rfl⟩ := Option.map_eq_some_iff.mp hr
    exact timePasses_of_eq rfl
  | _ => exact timePasses_of_eq rfl

theorem timePasses_travels : Travels TimePasses :=
  ⟨fun _ _ => timePasses_of_eq rfl, fun _ _ => timePasses_of_eq rfl⟩

/-- Each request of a run moves the clock on by some minutes. This puts the clock back if it shows
the last year already and the minutes lead beyond its end, to an earlier time of the year, and only
then. -/
theorem run_clock {start : Session} (hr : start.registry.IsPlain) (past : List Request)
    (q : Request) :
    let before := (start.run past).state.time
    let after := ((start.run past).handle q).state.time
    ∃ minutes, after = before.advance minutes ∧
      (after.Before before ↔
        before.year = lastYear ∧
          (before.sinceNewYear + minutes) % Clock.yearLength < before.sinceNewYear) := by
  intro before after
  have hcall := Registry.call_follows timePasses_course timePasses_core hr
  obtain ⟨-, minutes, hafter⟩ :=
    handle_follows timePasses_course hcall timePasses_travels q (start.run_registry past)
  have hafter' : after = before.advance minutes := hafter
  exact ⟨minutes, hafter', hafter' ▸ before.advance_before_iff minutes⟩

def lastMinute : Session :=
  ⟨"game", {}, Registry.core, ⟨{ time := .ofFields ⟨lastYear, 3, 30, 23, 59⟩ }, ⟨7⟩⟩⟩

theorem run_clock_year :
    let year : Request := .parse "\x7b\x7b advance_time 172800 \x7d\x7d"
    let before := (lastMinute.run [year]).state.time
    let after := ((lastMinute.run [year]).handle year).state.time
    lastMinute.registry.IsPlain ∧ ∃ minutes, after = before.advance minutes ∧
      (after.Before before ↔
        before.year = lastYear ∧
          (before.sinceNewYear + minutes) % Clock.yearLength < before.sinceNewYear) := by
  intro year before after
  exact ⟨Registry.core_isPlain, run_clock Registry.core_isPlain [year] year⟩

theorem lastMinute_before :
    let after := (lastMinute.handle (.execute "advance_time" [.int 1])).state.time
    lastMinute.registry.IsPlain ∧ after.toClockFields = ⟨lastYear, 0, 1, 0, 0⟩ ∧
      after.Before lastMinute.state.time := by
  intro after
  have hafter : after.toClockFields = ⟨lastYear, 0, 1, 0, 0⟩ := by decide +kernel
  have hbefore : lastMinute.state.time.toClockFields = ⟨lastYear, 3, 30, 23, 59⟩ := by
    decide +kernel
  refine ⟨Registry.core_isPlain, hafter, ?_⟩
  rw [Clock.Before, hafter, hbefore]
  decide

end Session

end Narrative
