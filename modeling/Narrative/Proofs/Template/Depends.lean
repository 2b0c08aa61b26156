import Narrative.Proofs.Template.Step

/-! Templates that depend on a text as the header of one block, if at all. Blocks are built from
nodes that are never looked into, so what a builder holds in one place ends in one place of the
template, or is lost. -/

namespace Narrative

/-- Lists that depend on a text in one member, if at all. -/
inductive InOne {α : Type} (P : (String → α) → Prop) : (String → List α) → Prop
  | const (l : List α) : InOne P fun _ => l
  | member (front : List α) {x : String → α} (hx : P x) (back : List α) : InOne P fun h =>
    front ++ x h :: back

namespace InOne

variable {α : Type} {P : (String → α) → Prop} {l : String → List α}

theorem cons (x : α) (hl : InOne P l) : InOne P fun h => x :: l h := by
  cases hl with
  | const l => exact .const (x :: l)
  | member front hx back => exact .member (x :: front) hx back

theorem reverse (hl : InOne P l) : InOne P fun h => (l h).reverse := by
  cases hl with
  | const l => exact .const l.reverse
  | member front hx back => simpa using InOne.member back.reverse hx front.reverse

end InOne

mutual

/-- Nodes that depend on a text as the header of one block, if at all. -/
inductive Node.OneHeader : (String → Node) → Prop
  | const (n : Node) : Node.OneHeader fun _ => n
  | loop (body : List Node) : Node.OneHeader fun h => .ofLoop h body
  | cond (body : List Node) (arms : Arms) : Node.OneHeader fun h => .cond h body arms
  | inLoop (var iterable : String) {body : String → List Node} (hbody : InOne Node.OneHeader body) :
    Node.OneHeader fun h => .loop var iterable (body h)
  | inBody (test : String) {body : String →
      List Node} (hbody : InOne Node.OneHeader body) (arms : Arms) :
    Node.OneHeader fun h => .cond test (body h) arms
  | inArms (test : String) (body : List Node) {arms : String → Arms} (harms : Arms.OneHeader arms) :
    Node.OneHeader fun h => .cond test body (arms h)

inductive Arms.OneHeader : (String → Arms) → Prop
  | otherwise {body : String → List Node} (hbody : InOne Node.OneHeader body) :
    Arms.OneHeader fun h => .otherwise (body h)
  | inBody (test : String) {body : String →
      List Node} (hbody : InOne Node.OneHeader body) (arms : Arms) :
    Arms.OneHeader fun h => .elif test (body h) arms
  | inArms (test : String) (body : List Node) {arms : String → Arms} (harms : Arms.OneHeader arms) :
    Arms.OneHeader fun h => .elif test body (arms h)

end

def Template.OneHeader (t : String → Template) : Prop :=
  InOne Node.OneHeader t

/-- Finished arms, the last first, that depend on a text in one body or as the test of the first
arm. -/
inductive OneArm : (String → List (String × List Node)) → Prop
  | test (arms : List (String × List Node)) (body : List Node) : OneArm fun h => arms ++ [(h, body)]
  | body (front : List (String × List Node)) (test : String) {body : String → List Node}
    (hbody : InOne Node.OneHeader body) (back : List (String × List Node)) :
    OneArm fun h => front ++ (test, body h) :: back

/-- Open blocks that depend on a text as their header or in one finished arm. -/
inductive Opener.OneHeader : (String → Opener) → Prop
  | loop : Opener.OneHeader .loop
  | test : Opener.OneHeader (.test [])
  | inTest {arms : String → List (String × List Node)} (harms : OneArm arms) (test : String) :
    Opener.OneHeader fun h => .test (arms h) test
  | inOtherwise {arms : String → List (String × List Node)} (harms : OneArm arms) :
    Opener.OneHeader fun h => .otherwise (arms h)

inductive Frame.OneHeader : (String → Frame) → Prop
  | opener {o : String → Opener} (ho : Opener.OneHeader o) (before : List Node) :
    Frame.OneHeader fun h => ⟨o h, before⟩
  | before (o : Opener) {before : String → List Node} (hbefore : InOne Node.OneHeader before) :
    Frame.OneHeader fun h => ⟨o, before h⟩

inductive Action.OneHeader : (String → Action) → Prop
  | const (a : Action) : Action.OneHeader fun _ => a
  | turn {o : String → Opener} (ho : Opener.OneHeader o) : Action.OneHeader fun h => .turn (o h)
  | leave {n : String → Node} (hn : Node.OneHeader n) : Action.OneHeader fun h => .leave (n h)

inductive Builder.OneHeader : (String → Builder) → Prop
  | nodes (frames : List Frame) {nodes : String → List Node} (hnodes : InOne Node.OneHeader nodes) :
    Builder.OneHeader fun h => ⟨frames, nodes h⟩
  | frames {frames : String → List Frame} (hframes : InOne Frame.OneHeader frames)
      (nodes : List Node) : Builder.OneHeader fun h => ⟨frames h, nodes⟩

section Node

variable {arms : String → List (String × List Node)} {body : String → List Node}

theorem OneArm.cons (arm : String × List Node) (harms : OneArm arms) :
    OneArm fun h => arm :: arms h := by
  cases harms with
  | test arms body => exact .test (arm :: arms) body
  | body front test hbody back => exact .body (arm :: front) test hbody back

theorem Arms.oneHeader_ofList (hbody : InOne Node.OneHeader body) (otherwise : Option (List Node))
    (front : List (String × List Node)) (test : String) (back : List (String × List Node)) :
    Arms.OneHeader fun h => Arms.ofList otherwise (front ++ (test, body h) :: back) := by
  induction front with
  | nil => exact .inBody test hbody (Arms.ofList otherwise back)
  | cons arm front ih => exact .inArms arm.1 arm.2 ih

theorem Arms.oneHeader_otherwise (hbody : InOne Node.OneHeader body)
    (arms : List (String × List Node)) :
    Arms.OneHeader fun h => Arms.ofList (some (body h)) arms := by
  induction arms with
  | nil => exact .otherwise hbody
  | cons arm arms ih => exact .inArms arm.1 arm.2 ih

theorem Node.oneHeader_ofArms (harms : OneArm arms) (otherwise : Option (List Node)) :
    Node.OneHeader fun h => Node.ofArms (arms h) otherwise := by
  cases harms with
  | test arms body =>
    simp only [Node.ofArms, List.reverse_append, List.reverse_singleton, List.singleton_append]
    exact .cond body _
  | body front test hbody back =>
    simp only [Node.ofArms, List.reverse_append, List.reverse_cons, List.append_assoc,
      List.singleton_append]
    cases back.reverse with
    | nil => exact .inBody test hbody _
    | cons arm back => exact .inArms arm.1 arm.2 (Arms.oneHeader_ofList hbody otherwise back test _)

theorem Node.oneHeader_ofArms_otherwise (hbody : InOne Node.OneHeader body)
    (arms : List (String × List Node)) :
      Node.OneHeader fun h => Node.ofArms arms (some (body h)) := by
  unfold Node.ofArms
  cases arms.reverse with
  | nil => exact .const _
  | cons arm arms => exact .inArms arm.1 arm.2 (Arms.oneHeader_otherwise hbody arms)

theorem Node.oneHeader_ofLoop (hbody : InOne Node.OneHeader body) (header : String) :
    Node.OneHeader fun h => Node.ofLoop header (body h) := by
  unfold Node.ofLoop
  cases Node.loopParts? header.toList with
  | none => exact .const _
  | some parts => exact .inLoop parts.1 parts.2 hbody

end Node

namespace Builder

variable {nodes : String → List Node} {opener : String → Opener} {b : String → Builder}

theorem action_nodes (top : Option Opener) (hnodes : InOne Node.OneHeader nodes) (s : Segment) :
    Action.OneHeader fun h => action top (nodes h) s := by
  obtain _ | ⟨arms, test⟩ | arms | header := top
  · simp only [action_none]
    exact .const _
  · rcases action_test s with ⟨rest, hs⟩ | hs | hs | hs <;> simp only [hs]
    · exact .turn (.inTest (.body [] test hnodes.reverse arms) rest)
    · exact .turn (.inOtherwise (.body [] test hnodes.reverse arms))
    · exact .leave (Node.oneHeader_ofArms (.body [] test hnodes.reverse arms) none)
    · exact .const _
  · rcases action_otherwise s with hs | hs <;> simp only [hs]
    · exact .leave (Node.oneHeader_ofArms_otherwise hnodes.reverse arms)
    · exact .const _
  · rcases action_loop s with hs | hs <;> simp only [hs]
    · exact .leave (Node.oneHeader_ofLoop hnodes.reverse header)
    · exact .const _

theorem action_opener (hopener : Opener.OneHeader opener) (nodes : List Node) (s : Segment) :
    Action.OneHeader fun h => action (some (opener h)) nodes s := by
  cases hopener with
  | loop =>
    rcases action_loop s with hs | hs <;> simp only [hs]
    · exact .leave (.loop nodes.reverse)
    · exact .const _
  | test =>
    rcases action_test s with ⟨rest, hs⟩ | hs | hs | hs <;> simp only [hs]
    · exact .turn (.inTest (.test [] nodes.reverse) rest)
    · exact .turn (.inOtherwise (.test [] nodes.reverse))
    · exact .leave (Node.oneHeader_ofArms (.test [] nodes.reverse) none)
    · exact .const _
  | inTest harms test =>
    rcases action_test s with ⟨rest, hs⟩ | hs | hs | hs <;> simp only [hs]
    · exact .turn (.inTest (harms.cons _) rest)
    · exact .turn (.inOtherwise (harms.cons _))
    · exact .leave (Node.oneHeader_ofArms (harms.cons _) none)
    · exact .const _
  | inOtherwise harms =>
    rcases action_otherwise s with hs | hs <;> simp only [hs]
    · exact .leave (Node.oneHeader_ofArms harms _)
    · exact .const _

section Apply

variable {a : String → Action} {frames : String → List Frame} {frame : String → Frame}

theorem apply_nodes (frames : List Frame) (hnodes : InOne Node.OneHeader nodes)
    (ha : Action.OneHeader a) : OneHeader fun h => apply ⟨frames, nodes h⟩ (a h) := by
  cases ha with
  | const a =>
    cases a with
    | push n => exact .nodes frames (hnodes.cons n)
    | enter o => exact .frames (.member [] (.before o hnodes) frames) []
    | turn o => exact .nodes (frames.modifyHead fun f => ⟨o, f.before⟩) (.const [])
    | leave n => exact .nodes frames.tail (.const (n :: (frames.head?.map Frame.before).getD []))
  | turn ho =>
    cases frames with
    | nil => exact .nodes [] (.const [])
    | cons f frames => exact .frames (.member [] (.opener ho f.before) frames) []
  | leave hn => exact .nodes frames.tail (.member [] hn ((frames.head?.map Frame.before).getD []))

theorem apply_opener (hopener : Opener.OneHeader opener) (before : List Node) (frames : List Frame)
    (nodes : List Node) (ha : Action.OneHeader a) :
    OneHeader fun h => apply ⟨⟨opener h, before⟩ :: frames, nodes⟩ (a h) := by
  cases ha with
  | const a =>
    cases a with
    | push n => exact .frames (.member [] (.opener hopener before) frames) (n :: nodes)
    | enter o => exact .frames (.member [⟨o, nodes⟩] (.opener hopener before) frames) []
    | turn o => exact .nodes (⟨o, before⟩ :: frames) (.const [])
    | leave n => exact .nodes frames (.const (n :: before))
  | turn ho => exact .frames (.member [] (.opener ho before) frames) []
  | leave hn => exact .nodes frames (.member [] hn before)

theorem apply_before (o : Opener) {before : String → List Node}
    (hbefore : InOne Node.OneHeader before) (frames : List Frame) (nodes : List Node) (a : Action) :
    OneHeader fun h => apply ⟨⟨o, before h⟩ :: frames, nodes⟩ a := by
  cases a with
  | push n => exact .frames (.member [] (.before o hbefore) frames) (n :: nodes)
  | enter o' => exact .frames (.member [⟨o', nodes⟩] (.before o hbefore) frames) []
  | turn o' => exact .frames (.member [] (.before o' hbefore) frames) []
  | leave n => exact .nodes frames (hbefore.cons n)

theorem apply_below (f : Frame) (front : List Frame) (hframe : Frame.OneHeader frame)
    (back : List Frame) (nodes : List Node) (a : Action) :
    OneHeader fun h => apply ⟨f :: (front ++ frame h :: back), nodes⟩ a := by
  cases a with
  | push n => exact .frames (.member (f :: front) hframe back) (n :: nodes)
  | enter o => exact .frames (.member (⟨o, nodes⟩ :: f :: front) hframe back) []
  | turn o => exact .frames (.member (⟨o, f.before⟩ :: front) hframe back) []
  | leave n => exact .frames (.member front hframe back) (n :: f.before)

end Apply

/-- A segment leaves the place that depends on the text one place, wherever it is. -/
theorem OneHeader.step (hb : OneHeader b) (s : Segment) : OneHeader fun h => (b h).step s := by
  simp only [step_eq]
  -- The place is in the innermost block's nodes, in that block, or in one below that the segment
  -- does not reach.
  cases hb with
  | nodes frames hnodes =>
    exact apply_nodes frames hnodes (action_nodes (frames.head?.map Frame.opener) hnodes s)
  | frames hframes nodes =>
    cases hframes with
    | const frames => exact .nodes _ (.const _)
    | member front hframe back =>
      cases front with
      | cons f front => exact apply_below f front hframe back nodes (action (some f.opener) nodes s)
      | nil =>
        cases hframe with
        | opener hopener before =>
          exact apply_opener hopener before back nodes (action_opener hopener nodes s)
        | before o hbefore => exact apply_before o hbefore back nodes (action (some o) nodes s)

theorem OneHeader.foldl (hb : OneHeader b) (ss : List Segment) :
    OneHeader fun h => ss.foldl Builder.step (b h) := by
  induction ss generalizing b with
  | nil => exact hb
  | cons s ss ih => exact ih (hb.step s)

theorem unclosed_opener (hopener : Opener.OneHeader opener) :
    ∃ e, ∀ h, unclosed (opener h) = e := by
  cases hopener <;> exact ⟨_, fun _ => rfl⟩

theorem OneHeader.finish (hb : OneHeader b) : Template.OneHeader fun h => (b h).finish := by
  cases hb with
  | nodes frames hnodes =>
    simp only [Builder.finish]
    cases frames.getLast? with
    | none => exact hnodes.reverse
    | some f => exact .const (.error (unclosed f.opener) :: f.before).reverse
  | frames hframes nodes =>
    cases hframes with
    | const frames => exact .const (Builder.finish ⟨frames, nodes⟩)
    | @member front frame hframe back =>
      simp only [Builder.finish, List.getLast?_append, List.getLast?_cons, Option.some_or]
      cases back.getLast? with
      | some f => exact .const (.error (unclosed f.opener) :: f.before).reverse
      | none =>
        simp only [Option.getD_none]
        cases hframe with
        | opener hopener before =>
          obtain ⟨e, he⟩ := unclosed_opener hopener
          simp only [he]
          exact .const (.error e :: before).reverse
        | before o hbefore => exact (hbefore.cons (.error (unclosed o))).reverse

end Builder

end Narrative
