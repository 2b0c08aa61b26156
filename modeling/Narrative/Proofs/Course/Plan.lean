import Narrative.Registry

/-! Plans: what a computation asks of its surroundings, whatever the answers are. Between its calls
a plan only looks at the scene and draws numbers, so a relation between scenes that every verb keeps
to, and that drawing a number keeps to, holds from before a plan to after it. -/

namespace Narrative

/-- A computation up to the answers to its calls. -/
inductive Plan (α : Type) where
  | done (a : α)
  | look (next : Scene → Plan α)
  | draw (chance : Chance) (next : Plan α)
  | call (name : String) (args : List Value) (next : Except VerbError String → Plan α)

variable {α β : Type}

namespace Plan

def run (call : Call) : Plan α → Scene → α × Scene
  | done a, s => (a, s)
  | look next, s => (next s).run call s
  | draw chance next, s => next.run call { s with chance }
  | .call name args next, s => (next (call name args s).1).run call (call name args s).2

def bind (f : α → Plan β) : Plan α → Plan β
  | done a => f a
  | look next => look fun s => (next s).bind f
  | draw chance next => draw chance (next.bind f)
  | .call name args next => .call name args fun r => (next r).bind f

theorem run_bind (call : Call) (f : α → Plan β) (p : Plan α) (s : Scene) :
    (p.bind f).run call s = (f (p.run call s).1).run call (p.run call s).2 := by
  induction p generalizing s with
  | done a => rfl
  | look next ih => exact ih s s
  | draw chance next ih => exact ih _
  | call name args next ih => exact ih _ _

end Plan

/-- A relation that holds along any course of steps, drawing a number being one. -/
structure Course (R : Scene → Scene → Prop) : Prop where
  refl : ∀ s, R s s
  trans : ∀ {s t u}, R s t → R t u → R s u
  draw : ∀ s chance, R s { s with chance }

theorem Course.of_state (P : State → Prop) : Course fun s t => P s.state → P t.state where
  refl _ h := h
  trans h h' := h' ∘ h
  draw _ _ h := h

variable {R : Scene → Scene → Prop}

def Call.Follows (R : Scene → Scene → Prop) (call : Call) : Prop :=
  ∀ name args s, R s (call name args s).2

theorem Plan.run_follows (hR : Course R) {call : Call} (hcall : call.Follows R) (p : Plan α)
    (s : Scene) : R s (p.run call s).2 := by
  induction p generalizing s with
  | done a => exact hR.refl s
  | look next ih => exact ih s s
  | draw chance next ih => exact hR.trans (hR.draw s chance) (ih _)
  | call name args next ih => exact hR.trans (hcall name args s) (ih _ _)

end Narrative
