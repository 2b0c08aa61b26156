import Narrative.Registry
import Narrative.Proofs.Template.Append

/-! Rendering texts one after the other. Each writes what it writes alone on the stage that the one
before it left, whatever errors are in them. -/

namespace Narrative

namespace Render

def followedBy (m k : Render String) : Render String := do
  let out ← m
  let rest ← k
  pure (out ++ rest)

theorem followedBy_run (m k : Render String) (stage : Stage) :
    (m.followedBy k).run stage =
      let first := m.run stage
      let second := k.run first.2
      (first.1 ++ second.1, second.2) := rfl

theorem followedBy_assoc (l m k : Render String) :
    (l.followedBy m).followedBy k = l.followedBy (m.followedBy k) := by
  funext stage
  exact Prod.ext (String.append_assoc ..) rfl

theorem pure_followedBy (s t : String) (k : Render String) :
    followedBy (pure s) (followedBy (pure t) k) = followedBy (pure (s ++ t)) k := by
  funext stage
  exact Prod.ext (String.append_assoc ..).symm rfl

theorem empty_followedBy (k : Render String) : followedBy (pure "") k = k := by
  funext stage
  exact Prod.ext (String.empty_append ..) rfl

end Render

namespace Env

variable (env : Env)

theorem renderNodes_cons (n : Node) (ns : List Node) :
    env.renderNodes (n :: ns) = (env.renderNode n).followedBy (env.renderNodes ns) := by
  rw [renderNodes]
  rfl

theorem renderNodes_append (ns ms : List Node) :
    env.renderNodes (ns ++ ms) = (env.renderNodes ns).followedBy (env.renderNodes ms) := by
  induction ns with
  | nil => rw [renderNodes, Render.empty_followedBy, List.nil_append]
  | cons n ns ih =>
    rw [List.cons_append, renderNodes_cons, ih, renderNodes_cons, Render.followedBy_assoc]

/-- It does not show where a text was cut in two. -/
theorem renderNodes_text (s t : String) (ns : List Node) :
    env.renderNodes (.text s :: .text t :: ns) = env.renderNodes (.text (s ++ t) :: ns) := by
  simp only [renderNodes_cons, renderNode, Render.pure_followedBy]

theorem renderNodes_joined {ns ms us : List Node}
    (h : Joined (fun cs => Node.text (String.ofList cs)) ns ms us) :
    env.renderNodes us = (env.renderNodes ns).followedBy (env.renderNodes ms) := by
  rw [← renderNodes_append]
  rcases h with rfl | ⟨front, s, t, back, rfl, rfl, rfl⟩
  · rfl
  · have hseam : env.renderNodes (.text (String.ofList (s ++ t)) :: back)
        = env.renderNodes (.text (String.ofList s) :: .text (String.ofList t) :: back) := by
      rw [String.ofList_append, renderNodes_text]
    rw [List.append_assoc, renderNodes_append, renderNodes_append]
    exact congrArg _ hseam

/-- Texts of which the first leaves nothing open and neither trims the other are rendered one after
the other. -/
theorem render_append {a b : String}
    (hclosed : ∀ e ∈ Template.errors (Template.parse a), e.isUnclosed = false)
    (hlast : a.toList.getLast? ≠ some '\x7b') (ha : endsTrimming a.toList = false)
    (hb : startsTrimming b.toList = false) (stage : Stage) :
    (env.render (a ++ b)).run stage =
      let first := (env.render a).run stage
      let second := (env.render b).run first.2
      (first.1 ++ second.1, second.2) := by
  have h : env.render (a ++ b) = (env.render a).followedBy (env.render b) :=
    env.renderNodes_joined (Template.parse_append hclosed hlast ha hb)
  rw [h, Render.followedBy_run]

/-- A text in which a name is set, an output is empty, a call fails and a block ends that is not
open. -/
def faulty : String :=
  "\x7b% set n = 2 %\x7d\x7b\x7b \x7d\x7d \x7b\x7b nothing() -\x7d\x7d x\x7b% endfor %\x7d"

/-- A text in which a loop is malformed, the name is read, and an output does not end. -/
def broken : String :=
  "\n\x7b% for n %\x7d!\x7b% endfor %\x7d\x7b\x7b n * 3 \x7d\x7d\x7b\x7b n"

/-- The name that the faulty text sets is read in the broken one after it. -/
theorem render_append_errors :
    let env : Env := Registry.core.env ∅
    let stage : Stage := ⟨[∅], ⟨{}, ⟨7⟩⟩⟩
    (∀ e ∈ Template.errors (Template.parse faulty), e.isUnclosed = false) ∧
      faulty.toList.getLast? ≠ some '\x7b' ∧ endsTrimming faulty.toList = false ∧
      startsTrimming broken.toList = false ∧
      (env.render (faulty ++ broken)).run stage =
        let first := (env.render faulty).run stage
        let second := (env.render broken).run first.2
        (first.1 ++ second.1, second.2) := by
  have hclosed : ∀ e ∈ Template.errors (Template.parse faulty), e.isUnclosed = false := by
    decide +kernel
  have hlast : faulty.toList.getLast? ≠ some '\x7b' := by decide +kernel
  have ha : endsTrimming faulty.toList = false := by decide +kernel
  have hb : startsTrimming broken.toList = false := by decide +kernel
  exact ⟨hclosed, hlast, ha, hb, render_append _ hclosed hlast ha hb _⟩

end Env

end Narrative
