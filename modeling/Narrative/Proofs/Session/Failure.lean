import Narrative.Proofs.Addon.Scripted
import Narrative.Session

/-! Verbs that fail. A script never does, and a core verb only before it changes anything, so a call
that fails leaves what it was made on as it was, at any depth. -/

namespace Narrative

namespace Registry

variable {r : Registry} {s t : Scene} {e : VerbError}

theorem handle_error {h : Handler} (hh : h.isPlain) {running : Nat} {call : Call} {args : Args}
    (he : r.handle h running call args s = (.error e, t)) :
    t = s ∧ ∃ index f, e = .argument args.verb index f := by
  cases h with
  | core v =>
    simp only [handle] at he
    rcases v.run_atomic args s.state with ⟨index, f, hv⟩ | ⟨words, u, hv, _⟩
    · rw [hv] at he
      cases he
      exact ⟨rfl, index, f, rfl⟩
    · rw [hv] at he
      cases he
  | script params body => cases he
  | native run => cases hh

theorem callAt_error (hr : r.IsPlain) {running : Nat} (hrun : running ≤ callLimit) {name : String}
    {args : List Value} (he : r.callAt running name args s = (.error e, t)) :
    t = s ∧ (r.allow name args running = .error e ∨ ∃ index f, e = .argument name index f) := by
  rw [callAt_eq hrun] at he
  cases ha : r.allow name args running with
  | error e' =>
    rw [ha] at he
    cases he
    exact ⟨rfl, .inl rfl⟩
  | ok h =>
    rw [ha] at he
    obtain ⟨hs, hfault⟩ := handle_error (hr.allow ha) he
    exact ⟨hs, .inr hfault⟩

end Registry

namespace Session

/-- Whether it was not let through or an argument was wrong, a call that fails changes nothing:
neither while any number of verbs run, no verb running for a call from outside, nor in a session. -/
theorem execute_unchanged {r : Registry} (hr : r.IsPlain) (name : String) (args : List Value)
    (e : VerbError) :
    (∀ running ≤ callLimit, ∀ s t, r.callAt running name args s = (.error e, t) →
      t = s ∧ (r.allow name args running = .error e ∨ ∃ index f, e = .argument name index f)) ∧
    ∀ x y : Session, x.registry = r → (execute name args).run x = (.error e, y) → y = x := by
  refine ⟨fun running hrun s t he => Registry.callAt_error hr hrun he, fun x y hx he => ?_⟩
  have hrun : (execute name args).run x
      = ((r.call name args x.scene).1, { x with scene := (r.call name args x.scene).2 }) := by
    subst hx
    rfl
  rcases hcall : r.call name args x.scene with ⟨answer, t⟩
  rw [hrun, hcall] at he
  cases he
  have ht : t = x.scene := (Registry.callAt_error hr (Nat.zero_le callLimit) hcall).1
  rw [ht]

def inn : Registry :=
  Registry.core.register
    ⟨"buy_ale", .exactly 1, .addon "inn", .script ["price"] "\x7b\x7b take_gold(price) \x7d\x7d"⟩

theorem inn_isPlain : inn.IsPlain :=
  Registry.core_isPlain.register rfl

/-- No item is added when the count is zero, also from inside fifteen verbs. -/
theorem execute_unchanged_zero :
    let s : Scene := ⟨{}, ⟨7⟩⟩
    let x : Session := ⟨"harbor", {}, inn, s⟩
    let args : List Value := [.text "mug", .int 0]
    let e : VerbError := .argument "add_item" 1 (.notPositive 0)
    inn.IsPlain ∧ 15 ≤ callLimit ∧ inn.callAt 15 "add_item" args s = (.error e, s) ∧
      (execute "add_item" args).run x = (.error e, x) := by
  intro s x args e
  have hcall : inn.callAt 15 "add_item" args s = (.error e, (inn.callAt 15 "add_item" args s).2) :=
    rfl
  have hexecute : (execute "add_item" args).run x
      = (.error e, ((execute "add_item" args).run x).2) := rfl
  have h := execute_unchanged inn_isPlain "add_item" args e
  refine ⟨inn_isPlain, by decide, ?_, ?_⟩
  · rw [hcall, (h.1 15 (by decide) s _ hcall).1]
  · rw [hexecute, h.2 x _ rfl hexecute]

end Session

end Narrative
