import Narrative.Proofs.Course.Render
import Narrative.Proofs.State.Change

/-! Calls of verbs. Which calls are let through, and what a call comes to with so many verbs
running; the verbs of a registry without native verbs keep to what the core verbs keep to. -/

namespace Narrative

def Handler.isPlain : Handler → Bool
  | .core _ | .script .. => true
  | .native _ => false

variable {R : Scene → Scene → Prop}

def CoreVerb.Follow (R : Scene → Scene → Prop) : Prop :=
  ∀ (v : CoreVerb) (args : Args) (s : Scene), R s { s with state := ((v.run args).run s.state).2 }

namespace Registry

/-- No verb of the registry is native. -/
def IsPlain (r : Registry) : Prop :=
  ∀ name v, r.get? name = some v → v.handler.isPlain

/-- The handler of a call that is let through while `running` verbs run, or why the call is not. -/
def allow (r : Registry) (name : String) (args : List Value) (running : Nat) :
    Except VerbError Handler :=
  match r.get? name with
  | none => .error (.notFound name)
  | some v =>
    if !v.arity.accepts args.length then .error (.arity name v.arity args.length)
    else if callLimit ≤ running then .error (.tooDeep name)
    else .ok v.handler

/-- Calls of verbs while `running` verbs run. -/
def callAt (r : Registry) (running : Nat) : Call :=
  r.callWithin (callLimit - running)

section Admit

variable {r : Registry} {name : String} {args : List Value} {running : Nat} {h : Handler}

theorem lt_of_allow (ha : r.allow name args running = .ok h) : running < callLimit := by
  unfold allow at ha
  split at ha
  · cases ha
  · split at ha
    · cases ha
    · split at ha
      · cases ha
      · next hlt => exact Nat.lt_of_not_le hlt

theorem IsPlain.allow (hr : r.IsPlain) (ha : r.allow name args running = .ok h) : h.isPlain := by
  unfold Registry.allow at ha
  split at ha
  · cases ha
  · next v hv =>
    split at ha
    · cases ha
    · split at ha <;> cases ha
      exact hr name v hv

/-- A call that is let through raises the number of running verbs by one for what it calls. -/
theorem callAt_eq (hrun : running ≤ callLimit) (s : Scene) :
    r.callAt running name args s = match r.allow name args running with
      | .error e => (.error e, s)
      | .ok h => r.handle h (running + 1) (r.callAt (running + 1)) ⟨name, args⟩ s := by
  unfold callAt callWithin allow
  cases r.get? name with
  | none => rfl
  | some v =>
    dsimp only
    split
    · rfl
    · rcases Nat.lt_or_ge running callLimit with hlt | hge
      · obtain ⟨room, hroom⟩ : ∃ room, callLimit - running = room + 1 :=
          ⟨callLimit - running - 1, by omega⟩
        have hdepth : callLimit - room = running + 1 := by omega
        have hrest : callLimit - (running + 1) = room := by omega
        simp only [hroom, hrest, hdepth, if_neg (Nat.not_le.mpr hlt)]
      · have hroom : callLimit - running = 0 := by omega
        simp only [hroom, if_pos hge]

end Admit

theorem handle_follows (hR : Course R) (hcore : CoreVerb.Follow R) (r : Registry) {h : Handler}
    (hh : h.isPlain) (depth : Nat) {call : Call} (hcall : call.Follows R) (args : Args)
    (s : Scene) : R s (r.handle h depth call args s).2 := by
  cases h with
  | core v => exact hcore v args s
  | script params body =>
    let env : Env := ⟨r.contains, call, ∅⟩
    have hcall' : env.call.Follows R := hcall
    exact Env.render_follows hR hcall' body ⟨[bindParams params args.values], s⟩
  | native run => cases hh

theorem callWithin_follows (hR : Course R) (hcore : CoreVerb.Follow R) {r : Registry}
    (hr : r.IsPlain) (room : Nat) : (r.callWithin room).Follows R := by
  induction room with
  | zero =>
    intro name args s
    unfold callWithin
    split
    · exact hR.refl s
    · split <;> exact hR.refl s
  | succ room ih =>
    intro name args s
    unfold callWithin
    split
    · exact hR.refl s
    · next v hv =>
      split
      · exact hR.refl s
      · exact handle_follows hR hcore r (hr name v hv) _ ih ⟨name, args⟩ s

theorem call_follows (hR : Course R) (hcore : CoreVerb.Follow R) {r : Registry} (hr : r.IsPlain) :
    r.call.Follows R :=
  callWithin_follows hR hcore hr callLimit

end Registry

end Narrative
