import Narrative.Proofs.Render.Unread
import Narrative.Proofs.Template.RoundTrip
import Narrative.Session

/-! Function actions. A call that the player makes does what it does as an output in a text, and its
words are kept in the history besides. Only a call that reads `location` may not, as an action has
no such name. -/

namespace Narrative

/-- A name is not cut where an argument list opens. -/
theorem Session.verbName_of_isName {head : String} (h : isName head = true) :
    verbName head = head := by
  have hall : ∀ c ∈ head.toList, decide (c ≠ '(') = true := fun c hc => by
    have hname := (IsWord.of_isName h).names c hc
    rw [decide_eq_true_eq]
    rintro rfl
    exact absurd hname (by decide)
  rw [verbName, takeWhile_all hall, String.ofList_toList]

namespace Env

variable {env : Env} {payload head : String} {args : List String}

theorem isForeign_of_isVerb (hwords : Shorthand.words payload = head :: args)
    (hverb : env.isVerb (Session.verbName head) = true) : env.isForeign payload = false := by
  refine Bool.eq_false_iff.mpr fun h => ?_
  obtain ⟨hnone, hform⟩ := Bool.and_eq_true_iff.mp h
  simp only [Shorthand.hasForm, hwords, Bool.and_eq_true] at hform
  obtain ⟨⟨⟨hname, -⟩, hopen⟩, -⟩ := hform
  rw [Session.verbName_of_isName hname] at hverb
  have hcall : Shorthand.call? env.isVerb payload
      = some (head ++ "(" ++ joinWith ", " (args.map Shorthand.literal) ++ ")") := by
    simp only [Shorthand.call?, hwords, hverb]
    exact if_neg (by simpa using hopen)
  rw [hcall] at hnone
  cases hnone

/-- What an output shows of what its expression comes to. -/
def outcomeText : Except EvalError Value → String
  | .ok v => v.display
  | .error e => errorText e.message

theorem output_run_of_parse {e : Expr} (h : Expr.parse (env.outputSource payload) = .ok e)
    (source : String) (stage : Stage) : (env.output payload source).run stage =
      let answer := (env.eval stage.scopes e).run stage.scene
      (outcomeText answer.1, { stage with scene := answer.2 }) := by
  unfold Env.output
  rw [h]
  let answer := (env.eval stage.scopes e).run stage.scene
  change (match answer.1 with
    | .ok v => (pure v.display : Render String)
    | .error e => pure (errorText e.message)).run { stage with scene := answer.2 }
    = (outcomeText answer.1, { stage with scene := answer.2 })
  cases answer.1 <;> rfl

theorem output_run (hwords : Shorthand.words payload = head :: args)
    (hverb : env.isVerb (Session.verbName head) = true) (source : String) (stage : Stage) :
    (env.output payload source).run stage =
      let answer := (env.evalText stage.scopes (env.outputSource payload)).run stage.scene
      (outcomeText answer.1, { stage with scene := answer.2 }) := by
  cases hparse : Expr.parse (env.outputSource payload) with
  | error e =>
    unfold Env.output Env.evalText
    simp only [hparse, isForeign_of_isVerb hwords hverb]
    rfl
  | ok e =>
    rw [output_run_of_parse hparse, Env.evalText, hparse]

end Env

namespace Session

variable {s : Session} {payload head : String} {args : List String}

def outputOf (payload : String) : String :=
  "\x7b\x7b " ++ payload ++ " \x7d\x7d"

theorem parse_outputOf {source : List Char}
    (hscan : Segment.scan (outputOf payload).toList = [.output payload.toList source]) :
    (parse (outputOf payload)).run s =
      let shown := (s.env.output payload (String.ofList source)).run ⟨[∅], s.scene⟩
      (shown.1, { s with scene := shown.2.scene }) := by
  have hparse : Template.parse (outputOf payload) = [.output payload (String.ofList source)] := by
    rw [Template.parse, hscan, Template.ofSegments, List.foldl_cons, Builder.step,
      String.ofList_toList]
    rfl
  let shown := (s.env.output payload (String.ofList source)).run ⟨[∅], s.scene⟩
  have hrender : (s.env.render (outputOf payload)).run ⟨[∅], s.scene⟩ = shown := by
    rw [Env.render, hparse, Env.renderNodes, Env.renderNodes, Env.renderNode]
    exact Prod.ext (String.append_empty ..) rfl
  have hrun : (parse (outputOf payload)).run s =
      (((s.env.render (outputOf payload)).run ⟨[∅], s.scene⟩).1,
        { s with scene := ((s.env.render (outputOf payload)).run ⟨[∅], s.scene⟩).2.scene }) := rfl
  rw [hrun, hrender]

/-- A function action comes to what its call does where there is no name `location`. -/
theorem act_function (hwords : Shorthand.words payload = head :: args)
    (hverb : s.registry.contains (verbName head) = true) :
    (act "function" (some payload)).run s
      = (runCall ((s.registry.env ∅).outputSource payload)).run s := by
  have hrun : (act "function" (some payload)).run s = (runFunction payload).run s := rfl
  rw [hrun, runFunction, StateT.run_bind, hwords]
  simp only [StateT.run_get, pure_bind, hverb, if_true]
  rfl

theorem unbound_location (s : Session) : (s.registry.env ∅).Unbound "location" :=
  ⟨rfl, fun _ => rfl⟩

/-- Whether an action and an output came to the same: they leave the same session, but that an
action which succeeds with words keeps them in the history, and the output shows these words, or the
error of the action. -/
def Agree (acted : Status × Session) (shown : String × Session) : Prop :=
  match acted.1 with
  | .ok none => shown = ("", acted.2)
  | .ok (some words) =>
    words ≠ "" ∧ shown.1 = words ∧ acted.2 = shown.2.setState (shown.2.state.record words)
  | .error reason => shown = (errorText reason, acted.2)

theorem runCall_agree {call : String} {answer : Except EvalError Value × Scene}
    (h : ((s.registry.env ∅).evalText [∅] call).run s.scene = answer) :
    Agree ((runCall call).run s) (Env.outcomeText answer.1, { s with scene := answer.2 }) := by
  obtain ⟨e | v, scene⟩ := answer
  · have hrun : (runCall call).run s = (.error e.message, { s with scene }) := by
      unfold runCall
      simp only [StateT.run, h]
    rw [hrun]
    rfl
  · have hrun : (runCall call).run s = (if v.display.isEmpty then (.ok none, { s with scene })
        else (.ok (some v.display), setState { s with scene } (scene.state.record v.display))) := by
      unfold runCall
      simp only [StateT.run, h]
      rfl
    rw [hrun]
    split
    · next hempty => exact Prod.ext (String.isEmpty_iff.mp hempty) rfl
    · next hempty => exact ⟨fun heq => hempty (String.isEmpty_iff.mpr heq), rfl, rfl⟩

/-- A function action agrees with an output of the same call, unless it fails for want of the name
`location`, which directives have and actions have not. -/
theorem act_function_agree {source : List Char} (hwords : Shorthand.words payload = head :: args)
    (hverb : s.registry.contains (verbName head) = true)
    (hscan : Segment.scan (outputOf payload).toList = [.output payload.toList source]) (hlocation :
      (((s.registry.env ∅).evalText [∅] ((s.registry.env ∅).outputSource payload)).run s.scene).1
      ≠ .error (.unknownVariable "location")) :
    Agree ((act "function" (some payload)).run s) ((parse (outputOf payload)).run s) := by
  let call := (s.registry.env ∅).outputSource payload
  have hsame : (s.env.evalText [∅] call).run s.scene =
      ((s.registry.env ∅).evalText [∅] call).run s.scene :=
    (Env.evalText_binding s.locationValue [∅] s.unbound_location call s.scene).resolve_left
      hlocation
  have hverb' : s.env.isVerb (verbName head) = true := hverb
  have houtput := Env.output_run hwords hverb' (String.ofList source) ⟨[∅], s.scene⟩
  rw [act_function hwords hverb, parse_outputOf hscan, houtput]
  exact runCall_agree hsame.symm

def crossroads : Session :=
  ⟨"game",
    { locations :=
        (∅ : Dict Entity).insert "start" ⟨(∅ : Document).insert "name" (.text "Crossroads")⟩ },
    Registry.core, ⟨{}, ⟨7⟩⟩⟩

theorem act_function_agree_gold :
    let payload := "give_gold 10"
    Shorthand.words payload = ["give_gold", "10"] ∧
      crossroads.registry.contains (verbName "give_gold") = true ∧
      Segment.scan (outputOf payload).toList = [.output payload.toList (outputOf payload).toList] ∧
      (((crossroads.registry.env ∅).evalText [∅]
        ((crossroads.registry.env ∅).outputSource payload)).run
        crossroads.scene).1 ≠ .error (.unknownVariable "location") ∧
      Agree ((act "function" (some payload)).run crossroads)
        ((parse (outputOf payload)).run crossroads) := by
  intro payload
  have hwords : Shorthand.words payload = ["give_gold", "10"] := by decide +kernel
  have hverb : crossroads.registry.contains (verbName "give_gold") = true := by decide +kernel
  have hscan : Segment.scan (outputOf payload).toList
      = [.output payload.toList (outputOf payload).toList] := by decide +kernel
  have hlocation : (((crossroads.registry.env ∅).evalText [∅]
      ((crossroads.registry.env ∅).outputSource payload)).run crossroads.scene).1
      ≠ .error (.unknownVariable "location") := by
    have hok : (((crossroads.registry.env ∅).evalText [∅]
        ((crossroads.registry.env ∅).outputSource payload)).run
          crossroads.scene).1.isOk = true := by
      decide +kernel
    intro h
    rw [h] at hok
    cases hok
  exact ⟨hwords, hverb, hscan, hlocation, act_function_agree hwords hverb hscan hlocation⟩

/-- A call that reads `location` is refused as an action and goes through as an output. -/
theorem not_agree_location :
    let payload := "travel_to(location.name)"
    Shorthand.words payload = [payload] ∧ crossroads.registry.contains (verbName payload) = true ∧
      Segment.scan (outputOf payload).toList = [.output payload.toList (outputOf payload).toList] ∧
      ¬ Agree ((act "function" (some payload)).run crossroads)
        ((parse (outputOf payload)).run crossroads) := by
  intro payload
  have hacted : ((act "function" (some payload)).run crossroads).1 =
      .error "'location' is undefined" := by
    decide +kernel
  have hshown : ((parse (outputOf payload)).run crossroads).1 = "Traveled to Crossroads." := by
    decide +kernel
  refine ⟨by decide +kernel, by decide +kernel, by decide +kernel, fun h => ?_⟩
  rw [Agree, hacted] at h
  have htext := congrArg Prod.fst h
  rw [hshown] at htext
  exact absurd htext (by decide)

end Session

end Narrative
