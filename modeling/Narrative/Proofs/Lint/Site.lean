import Narrative.Lint

/-! Where the checks of a text look, with the names that they take to be bound there. The name that
an `if` block binds stays bound after the block when the text is rendered, and the checks lose
it. -/

namespace Narrative

namespace Template

mutual

/-- The names that a node binds in the scope that it is rendered in, should it come to all of
them. -/
def nodeSets : Node → List String
  | .assign name _ => [name]
  | .cond _ body arms => sets body ++ armSets arms
  | .text _ | .output .. | .loop .. | .run _ | .error _ => []

def sets : List Node → List String
  | [] => []
  | n :: ns => nodeSets n ++ sets ns

def armSets : Arms → List String
  | .done => []
  | .otherwise body => sets body
  | .elif _ body arms => sets body ++ armSets arms

end

end Template

namespace Lint

open Template

/-- The names at a place of a text: those that the checks take to be bound, and those that they have
lost. -/
structure Names where
  bound : List String
  lost : List String

namespace Names

def after (g : Names) : Node → Names
  | .assign name _ => { g with bound := name :: g.bound }
  | .cond _ body arms => { g with lost := sets body ++ armSets arms ++ g.lost }
  | .text _ | .output .. | .loop .. | .run _ | .error _ => g

def inLoop (g : Names) (var : String) : Names :=
  { g with bound := var :: "loop" :: g.bound }

end Names

/-- What stands at a place: the content of an output, with its source, or an expression of a tag. -/
inductive Spot where
  | output (content source : String)
  | expression (source : String)

structure Site where
  spot : Spot
  names : Names

def Site.faults (isVerb : String → Bool) (s : Site) : List Fault :=
  match s.spot with
  | .output content _ => output isVerb s.names.bound content
  | .expression source => expression isVerb s.names.bound source

mutual

def nodeSites (g : Names) : Node → List Site
  | .text _ | .error _ => []
  | .output content source => [⟨.output content source, g⟩]
  | .cond test body arms => ⟨.expression test, g⟩ :: (sites g body ++ armSites g arms)
  | .loop var iterable body => ⟨.expression iterable, g⟩ :: sites (g.inLoop var) body
  | .assign _ source | .run source => [⟨.expression source, g⟩]

def sites (g : Names) : List Node → List Site
  | [] => []
  | n :: ns => nodeSites g n ++ sites (g.after n) ns

def armSites (g : Names) : Arms → List Site
  | .done => []
  | .otherwise body => sites g body
  | .elif test body arms => ⟨.expression test, g⟩ :: (sites g body ++ armSites g arms)

end

def textSites (text : String) : List Site :=
  sites ⟨[], []⟩ (Template.parse text)

section Faults

variable {isVerb : String → Bool}

mutual

theorem node_eq_sites (g : Names) (n : Node) :
    node isVerb g.bound n = ((nodeSites g n).flatMap (Site.faults isVerb), (g.after n).bound) := by
  cases n with
  | text | error => rfl
  | output | assign | run => simp [node, nodeSites, Site.faults, Names.after]
  | cond test body arms =>
    simp [node, nodeSites, Site.faults, Names.after, nodes_eq_sites g body, arms_eq_sites g arms]
  | loop var iterable body =>
    have hbody := nodes_eq_sites (g.inLoop var) body
    rw [Names.inLoop] at hbody
    simp [node, nodeSites, Site.faults, Names.after, Names.inLoop, hbody]

theorem nodes_eq_sites (g : Names) (ns : List Node) :
    nodes isVerb g.bound ns = (sites g ns).flatMap (Site.faults isVerb) := by
  cases ns with
  | nil => rfl
  | cons n ns => simp [nodes, sites, node_eq_sites g n, nodes_eq_sites (g.after n) ns]

theorem arms_eq_sites (g : Names) (rest : Arms) :
    arms isVerb g.bound rest = (armSites g rest).flatMap (Site.faults isVerb) := by
  cases rest with
  | done => rfl
  | otherwise body => rw [arms, armSites, nodes_eq_sites g body]
  | elif test body rest =>
    simp [arms, armSites, Site.faults, nodes_eq_sites g body, arms_eq_sites g rest]

end

/-- The report on a text is what its regions and its sites are at fault, one after the other. -/
theorem template_eq_sites (text : String) :
    template isVerb text =
      (Template.errors (Template.parse text)).map .template ++
        (textSites text).flatMap (Site.faults isVerb) := by
  rw [template, textSites, ← nodes_eq_sites]

end Faults

section Unknown

variable {isVerb : String → Bool} {bound : List String} {x : String}

theorem expression_unknown {source : String}
    (h : .unknownVariable x ∈ expression isVerb bound source) : isKnown bound x = false := by
  unfold expression at h
  split at h
  · simp at h
  · dsimp only at h
    split at h
    · cases h
    · split at h
      · split at h
        · cases h
        · simp at h
      · split at h
        · cases h
        · next hknown =>
          simp only [List.mem_singleton, Fault.unknownVariable.injEq] at h
          subst h
          simpa using hknown

theorem Site.unknown {s : Site} (h : .unknownVariable x ∈ s.faults isVerb) :
    isKnown s.names.bound x = false := by
  unfold Site.faults at h
  split at h
  · unfold output at h
    split at h
    · cases h
    · split at h
      · simp at h
      · exact expression_unknown h
  · exact expression_unknown h

end Unknown

end Lint

end Narrative
