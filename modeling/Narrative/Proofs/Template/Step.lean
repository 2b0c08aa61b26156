import Narrative.Template

/-! What a segment does to the open blocks. It adds a node, opens a block, goes on with the
innermost block or ends it; which of these it does, the kind of the innermost block alone decides.
So a block that is open is read on top of what was there before it, and what was there before does
not matter until it ends. -/

namespace Narrative

/-- What a segment does: it adds a node, opens a block, or goes on with or ends the innermost
block. -/
inductive Action where
  | push (n : Node)
  | enter (o : Opener)
  | turn (o : Opener)
  | leave (n : Node)

/-- The kinds of open blocks: a conditional before and after its `else`, and a loop. -/
inductive BlockKind where
  | test
  | otherwise
  | loop
  deriving DecidableEq

def Opener.kind : Opener → BlockKind
  | .test _ _ => .test
  | .otherwise _ => .otherwise
  | .loop _ => .loop

/-- What becomes of the open blocks, the nodes aside. -/
inductive Move where
  | stay
  | enter (k : BlockKind)
  | turn (k : BlockKind)
  | leave
  deriving DecidableEq

def Action.move : Action → Move
  | .push _ => .stay
  | .enter o => .enter o.kind
  | .turn o => .turn o.kind
  | .leave _ => .leave

def Move.blocks : Move → List BlockKind → List BlockKind
  | .stay, ks => ks
  | .enter k, ks => k :: ks
  | .turn k, ks => ks.modifyHead fun _ => k
  | .leave, ks => ks.tail

namespace Builder

/-- The action of a tag that neither goes on with the innermost block nor ends it. -/
def freshAction (keyword rest : String) : Action :=
  match keyword with
  | "if" => if rest = "" then .push (.error .missingTest) else .enter (.test [] rest)
  | "for" => .enter (.loop rest)
  | _ => .push (.ofStatement keyword rest)

def tagAction (top : Option Opener) (nodes : List Node) (keyword rest : String) : Action :=
  match top, keyword with
  | some (.test arms test), "elif" => .turn (.test ((test, nodes.reverse) :: arms) rest)
  | some (.test arms test), "else" => .turn (.otherwise ((test, nodes.reverse) :: arms))
  | some (.test arms test), "endif" => .leave (.ofArms ((test, nodes.reverse) :: arms) none)
  | some (.otherwise arms), "endif" => .leave (.ofArms arms (some nodes.reverse))
  | some (.loop header), "endfor" => .leave (.ofLoop header nodes.reverse)
  | _, _ => freshAction keyword rest

def action (top : Option Opener) (nodes : List Node) : Segment → Action
  | .text cs => .push (.text (String.ofList cs))
  | .output expr source => .push (.output (String.ofList expr) (String.ofList source))
  | .error e => .push (.error e)
  | .tag content => tagAction top nodes (keyword content).1 (keyword content).2

def top (b : Builder) : Option Opener :=
  b.frames.head?.map Frame.opener

def blocks (b : Builder) : List BlockKind :=
  b.frames.map fun f => f.opener.kind

def apply (b : Builder) : Action → Builder
  | .push n => b.push n
  | .enter o => b.enter o
  | .turn o => ⟨b.frames.modifyHead fun f => ⟨o, f.before⟩, []⟩
  | .leave n => ⟨b.frames.tail, n :: (b.frames.head?.map Frame.before).getD []⟩

variable {b b' base : Builder}

theorem tag_eq (b : Builder) (keyword rest : String) :
    b.tag keyword rest = b.apply (tagAction b.top b.nodes keyword rest) := by
  obtain ⟨_ | ⟨⟨_ | _ | _, before⟩, frames⟩, nodes⟩ := b
  all_goals
    unfold tag tagAction freshAction
    split <;> simp_all [top, apply, apply_ite]
    split <;> simp_all

theorem step_eq (b : Builder) (s : Segment) : b.step s = b.apply (action b.top b.nodes s) := by
  cases s with
  | tag content => exact tag_eq b _ _
  | _ => rfl

theorem tagAction_none (nodes : List Node) (keyword rest : String) :
    tagAction none nodes keyword rest = freshAction keyword rest := by
  simp [tagAction]

theorem action_none (nodes : List Node) (s : Segment) : action none nodes s = action none [] s := by
  cases s with
  | tag content => rw [action, action, tagAction_none, tagAction_none]
  | _ => rfl

theorem action_fresh (s : Segment) :
    (∃ n, action none [] s = .push n) ∨ ∃ o, action none [] s = .enter o := by
  cases s with
  | tag content =>
    simp only [action, tagAction_none, freshAction]
    split
    · split
      · exact .inl ⟨_, rfl⟩
      · exact .inr ⟨_, rfl⟩
    · exact .inr ⟨_, rfl⟩
    · exact .inl ⟨_, rfl⟩
  | _ => exact .inl ⟨_, rfl⟩

theorem action_test (s : Segment) :
    (∃ rest, ∀ arms test nodes, action (some (.test arms test)) nodes s
      = .turn (.test ((test, nodes.reverse) :: arms) rest)) ∨
    (∀ arms test nodes, action (some (.test arms test)) nodes s
      = .turn (.otherwise ((test, nodes.reverse) :: arms))) ∨
    (∀ arms test nodes, action (some (.test arms test)) nodes s
      = .leave (.ofArms ((test, nodes.reverse) :: arms) none)) ∨
    ∀ arms test nodes, action (some (.test arms test)) nodes s = action none [] s := by
  cases s with
  | tag content =>
    simp only [action]
    by_cases helif : (keyword content).1 = "elif"
    · exact .inl ⟨_, fun _ _ _ => by rw [helif, tagAction]⟩
    by_cases helse : (keyword content).1 = "else"
    · exact .inr (.inl fun _ _ _ => by rw [helse, tagAction])
    by_cases hend : (keyword content).1 = "endif"
    · exact .inr (.inr (.inl fun _ _ _ => by rw [hend, tagAction]))
    · exact .inr (.inr (.inr fun _ _ _ => by simp [tagAction, helif, helse, hend]))
  | _ => exact .inr (.inr (.inr fun _ _ _ => rfl))

/-- A block that has one tag to end it takes any other segment as if no block was open. -/
theorem action_closing {α : Type} (block : α → Opener) (node : α → List Node → Node)
    (close : String) (hend : ∀ a nodes rest, tagAction (some (block a)) nodes close rest =
      .leave (node a nodes.reverse))
    (hother : ∀ a nodes word rest, word ≠ close →
      tagAction (some (block a)) nodes word rest = freshAction word rest) (s : Segment) :
    (∀ a nodes, action (some (block a)) nodes s = .leave (node a nodes.reverse)) ∨
    ∀ a nodes, action (some (block a)) nodes s = action none [] s := by
  cases s with
  | tag content =>
    by_cases hclose : (keyword content).1 = close
    · exact .inl fun a nodes => by rw [action, hclose, hend]
    · exact .inr fun a nodes => by rw [action, hother _ _ _ _ hclose, action, tagAction_none]
  | _ => exact .inr fun _ _ => rfl

theorem action_otherwise (s : Segment) :
    (∀ arms nodes, action (some (.otherwise arms)) nodes s =
      .leave (.ofArms arms (some nodes.reverse))) ∨
    ∀ arms nodes, action (some (.otherwise arms)) nodes s = action none [] s :=
  action_closing .otherwise (fun arms nodes => .ofArms arms (some nodes)) "endif"
    (fun _ _ _ => by rw [tagAction]) (fun _ _ _ _ h => by simp [tagAction, h]) s

theorem action_loop (s : Segment) :
    (∀ header nodes, action (some (.loop header)) nodes s = .leave (.ofLoop header nodes.reverse)) ∨
    ∀ header nodes, action (some (.loop header)) nodes s = action none [] s :=
  action_closing .loop .ofLoop "endfor"
    (fun _ _ _ => by rw [tagAction]) (fun _ _ _ _ h => by simp [tagAction, h]) s

section Blocks

theorem blocks_apply (b : Builder) (a : Action) : (b.apply a).blocks = a.move.blocks b.blocks := by
  obtain ⟨frames, nodes⟩ := b
  cases a with
  | push n => rfl
  | enter o => rfl
  | turn o => cases frames <;> rfl
  | leave n => cases frames <;> rfl

/-- The kind of the innermost block decides what becomes of the open blocks. -/
theorem action_move {top top' : Option Opener} (h : top.map Opener.kind = top'.map Opener.kind)
    (nodes nodes' : List Node) (s : Segment) :
      (action top nodes s).move = (action top' nodes' s).move := by
  obtain _ | _ | _ | _ := top <;> obtain _ | _ | _ | _ := top' <;> cases h
  · rw [action_none nodes, action_none nodes']
  · rcases action_test s with ⟨_, hs⟩ | hs | hs | hs <;> simp only [hs, Action.move, Opener.kind]
  · rcases action_otherwise s with hs | hs <;> simp only [hs, Action.move]
  · rcases action_loop s with hs | hs <;> simp only [hs, Action.move]

theorem top_kind (b : Builder) : b.top.map Opener.kind = b.blocks.head? := by
  obtain ⟨_ | ⟨f, frames⟩, nodes⟩ := b <;> rfl

def move (b : Builder) (s : Segment) : Move :=
  (action b.top b.nodes s).move

theorem move_congr (h : b.blocks = b'.blocks) (s : Segment) : b.move s = b'.move s :=
  action_move (by rw [top_kind, top_kind, h]) _ _ s

theorem blocks_step (b : Builder) (s : Segment) :
    (b.step s).blocks = (b.move s).blocks b.blocks := by
  rw [step_eq, blocks_apply]
  rfl

def moves (b : Builder) : List Segment → List Move
  | [] => []
  | s :: ss => b.move s :: (b.step s).moves ss

theorem moves_congr (h : b.blocks = b'.blocks) (ss : List Segment) : b.moves ss = b'.moves ss := by
  induction ss generalizing b b' with
  | nil => rfl
  | cons s ss ih =>
    have hstep : (b.step s).blocks = (b'.step s).blocks := by
      rw [blocks_step, blocks_step, move_congr h, h]
    rw [moves, moves, move_congr h, ih hstep]

theorem moves_append (b : Builder) (ss ts : List Segment) :
    b.moves (ss ++ ts) = b.moves ss ++ (ss.foldl step b).moves ts := by
  induction ss generalizing b with
  | nil => rfl
  | cons s ss ih => simp only [List.cons_append, moves, ih, List.foldl_cons]

end Blocks

section On

/-- Frames and the nodes inside them, above what `base` has. -/
def onFrames (base : Builder) (nodes : List Node) : List Frame → Builder
  | [] => ⟨base.frames, nodes ++ base.nodes⟩
  | f :: frames =>
    let below := onFrames base f.before frames
    ⟨⟨f.opener, below.nodes⟩ :: below.frames, nodes⟩

/-- A builder on top of another one, which stays open below it. -/
def on (b base : Builder) : Builder :=
  onFrames base b.nodes b.frames

theorem on_start (base : Builder) : start.on base = base := rfl

theorem push_on (b base : Builder) (n : Node) : (b.push n).on base = (b.on base).push n := by
  obtain ⟨_ | ⟨f, frames⟩, nodes⟩ := b <;> rfl

/-- A segment that does not end a block below is read above it as it is read alone. -/
theorem step_on (h : b.frames ≠ [] ∨ base.frames = []) (s : Segment) :
    (b.on base).step s = (b.step s).on base := by
  rw [step_eq, step_eq]
  obtain ⟨_ | ⟨f, frames⟩, nodes⟩ := b
  -- With nothing open on top the segment goes to what is open below, and so nothing may be open
  -- there.
  · have hbase : base.frames = [] := h.resolve_left (fun hne => hne rfl)
    have htop : (on ⟨[], nodes⟩ base).top = none := by
      simp [top, on, onFrames, hbase]
    rw [htop]
    change (on ⟨[], nodes⟩ base).apply _ = (apply ⟨[], nodes⟩ (action none nodes s)).on base
    rw [action_none nodes, action_none (on ⟨[], nodes⟩ base).nodes]
    rcases action_fresh s with ⟨n, hs⟩ | ⟨o, hs⟩
    · rw [hs]
      rfl
    · rw [hs]
      rfl
  · change (on ⟨f :: frames, nodes⟩ base).apply (action (some f.opener) nodes s)
      = (apply ⟨f :: frames, nodes⟩ (action (some f.opener) nodes s)).on base
    cases action (some f.opener) nodes s with
    | push n => rfl
    | enter o => rfl
    | turn o => rfl
    | leave n => exact (push_on ⟨frames, f.before⟩ base n).symm

theorem foldl_on (hbase : base.frames = []) (ss : List Segment) (b : Builder) :
    ss.foldl step (b.on base) = (ss.foldl step b).on base := by
  induction ss generalizing b with
  | nil => rfl
  | cons s ss ih =>
    rw [List.foldl_cons, step_on (.inr hbase), ih]
    rfl

theorem finish_on (hbase : base.frames = []) (b : Builder) :
    (b.on base).finish = base.nodes.reverse ++ b.finish := by
  obtain ⟨frames, nodes⟩ := b
  change (onFrames base nodes frames).finish = _
  induction frames generalizing nodes with
  | nil => simp [onFrames, finish, hbase]
  | cons f frames ih =>
    cases frames with
    | nil => simp [onFrames, finish, hbase]
    | cons g frames =>
      have hbelow := ih f.before
      simp only [finish, onFrames, List.getLast?_cons_cons] at hbelow ⊢
      exact hbelow

end On

end Builder

namespace Template

/-- Behind nodes with no block open, segments are parsed as they are alone. -/
theorem finish_foldl (nodes : List Node) (ss : List Segment) :
    (ss.foldl Builder.step ⟨[], nodes⟩).finish = nodes.reverse ++ ofSegments ss := by
  have hfold : ss.foldl Builder.step (Builder.start.on ⟨[], nodes⟩)
      = (ss.foldl Builder.step Builder.start).on ⟨[], nodes⟩ :=
        Builder.foldl_on rfl ss Builder.start
  rw [Builder.on_start] at hfold
  rw [hfold, Builder.finish_on rfl]
  rfl

end Template

end Narrative
