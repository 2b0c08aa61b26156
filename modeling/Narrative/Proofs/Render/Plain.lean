import Narrative.Proofs.Render.Foreign
import Narrative.Proofs.Template.Cutting
import Narrative.Proofs.Template.Print

/-! Plain templates. Whatever a text marks shows in the nodes of its template, but for its comments,
which leave none. So a text whose template is plain is shown without its comments and changes
nothing. -/

namespace Narrative

variable {ps : List Piece} {cs : List Char}

/-- No region opens in the text. -/
def Unopened (cs : List Char) : Prop :=
  ∀ kind : RegionKind, ¬ ['\x7b', kind.opening] <:+: cs

namespace Piece

def IsLiteral (p : Piece) : Prop :=
  ∃ cs, p = .literal cs

/-- The piece is literal text, or a comment up to its end. -/
def IsSilent : Piece → Prop
  | .literal _ => True
  | .region r => r.kind = .comment
  | .unclosed _ _ _ => False

def isRegion : Piece → Bool
  | .region _ => true
  | _ => false

theorem IsLiteral.isSilent {p : Piece} (h : p.IsLiteral) : p.IsSilent := by
  obtain ⟨cs, rfl⟩ := h
  trivial

end Piece

theorem source_infix_sources {p : Piece} (hp : p ∈ ps) : p.source <:+: sources ps := by
  obtain ⟨before, after, rfl⟩ := List.append_of_mem hp
  exact ⟨sources before, sources after, by simp [sources]⟩

theorem IsCut.isLiteral_of_unopened (h : IsCut ps) (hopen : Unopened (sources ps)) :
    ∀ p ∈ ps, p.IsLiteral := by
  intro p hp
  have hsource : Unopened p.source :=
    fun kind hin => hopen kind (hin.trans (source_infix_sources hp))
  cases p with
  | literal cs => exact ⟨cs, rfl⟩
  | region r =>
    exact absurd ⟨[], r.inside, (Region.source_eq r).symm⟩ (hsource r.kind)
  | unclosed kind trimBefore source =>
    obtain ⟨before, after, rfl⟩ := List.append_of_mem hp
    obtain ⟨_, inner, _, rfl, _⟩ := fits_unclosed_iff.mp (isCut_iff.mp h before _ after rfl)
    exact absurd ⟨[], inner, rfl⟩ (hsource kind)

/-- Literal runs are not cut apart, so a cut into literal runs is one run at most. -/
theorem IsCut.eq_of_isLiteral (h : IsCut ps) (hps : ∀ p ∈ ps, p.IsLiteral) :
    ps = [] ∨ ∃ run, ps = [.literal run] ∧ Unopened run := by
  cases h with
  | nil => exact .inl rfl
  | region | unclosed => simp [Piece.IsLiteral] at hps
  | @literal run ps _ hopen hrun _ =>
    cases ps with
    | nil =>
      refine .inr ⟨run, rfl, fun kind hin => ?_⟩
      obtain ⟨before, after, rfl⟩ := hin
      have hnone := hopen (['\x7b', kind.opening] ++ after) ⟨before, by simp⟩ (by simp)
      exact opener?_eq_none_iff.mp hnone kind ⟨after ++ sources [], by simp⟩
    | cons q ps =>
      obtain ⟨run', rfl⟩ := hps q (by simp)
      exact absurd ⟨run', ps, rfl⟩ hrun

theorem unopened_iff (cs : List Char) : Unopened cs ↔ ∀ p ∈ cut cs, p.IsLiteral := by
  constructor
  · intro h
    refine (isCut_cut cs).isLiteral_of_unopened ?_
    rwa [sources_cut]
  · intro h
    have hcs := sources_cut cs
    rcases (isCut_cut cs).eq_of_isLiteral h with hnil | ⟨run, hrun, hopen⟩
    · rw [hnil] at hcs
      subst hcs
      intro kind hin
      simp [sources] at hin
    · rw [hrun] at hcs
      simpa [sources, Piece.source, ← hcs] using hopen

namespace Segment

def IsText : Segment → Prop
  | .text _ => True
  | _ => False

theorem isText_ofLiteral (cs : List Char) : ∀ s ∈ ofLiteral cs, s.IsText := by
  unfold ofLiteral
  split <;> simp [IsText]

theorem isText_ofRegion_iff (r : Region) : (∀ s ∈ ofRegion r, s.IsText) ↔ r.kind = .comment := by
  cases hkind : r.kind with
  | output =>
    simp only [ofRegion, hkind]
    split <;> simp [IsText]
  | tag => simp [ofRegion, hkind, IsText]
  | comment => simp [ofRegion, hkind]

theorem isText_ofPieces_iff (trimmed : Bool) (ps : List Piece) :
    (∀ s ∈ ofPieces trimmed ps, s.IsText) ↔ ∀ p ∈ ps, p.IsSilent := by
  induction ps generalizing trimmed with
  | nil => simp [ofPieces]
  | cons p ps ih =>
    rw [List.forall_mem_cons]
    cases p with
    | literal cs =>
      simp only [ofPieces, List.forall_mem_append, ih, Piece.IsSilent, true_and]
      exact and_iff_right (isText_ofLiteral _)
    | region r =>
      simp only [ofPieces, List.forall_mem_append, ih, isText_ofRegion_iff, Piece.IsSilent]
    | unclosed => simp [ofPieces, IsText, Piece.IsSilent]

end Segment

namespace Template

theorem isText_ofArms (arms : List (String × List Node)) (otherwise : Option (List Node)) :
    isText (.ofArms arms otherwise) = false := by
  unfold Node.ofArms
  split <;> rfl

theorem isText_ofLoop (header : String) (body : List Node) :
    isText (.ofLoop header body) = false := by
  unfold Node.ofLoop
  split <;> rfl

theorem isText_ofStatement (keyword rest : String) :
    isText (.ofStatement keyword rest) = false := by
  unfold Node.ofStatement
  split
  · split <;> rfl
  · split <;> rfl
  all_goals rfl

end Template

namespace Builder

open Template (isText)

variable {b : Builder}

/-- A block is open, or there is a node that is no text. -/
def Marked (b : Builder) : Prop :=
  b.frames ≠ [] ∨ ∃ n ∈ b.nodes, isText n = false

theorem isText_leave {top : Option Opener} {nodes : List Node} {s : Segment} {n : Node}
    (h : action top nodes s = .leave n) : isText n = false := by
  have hfresh : action none [] s ≠ .leave n := by
    rcases action_fresh s with ⟨m, hm⟩ | ⟨o, ho⟩ <;> simp [*]
  obtain _ | _ | _ | _ := top
  · rw [action_none] at h
    exact absurd h hfresh
  · rcases action_test s with ⟨rest, hs⟩ | hs | hs | hs <;> rw [hs] at h
    · cases h
    · cases h
    · cases h
      exact Template.isText_ofArms _ _
    · exact absurd h hfresh
  · rcases action_otherwise s with hs | hs <;> rw [hs] at h
    · cases h
      exact Template.isText_ofArms _ _
    · exact absurd h hfresh
  · rcases action_loop s with hs | hs <;> rw [hs] at h
    · cases h
      exact Template.isText_ofLoop _ _
    · exact absurd h hfresh

theorem Marked.step (hb : b.Marked) (s : Segment) : (b.step s).Marked := by
  rw [step_eq]
  cases ha : action b.top b.nodes s with
  | push n => exact hb.imp_right fun ⟨m, hm, ht⟩ => ⟨m, List.mem_cons_of_mem n hm, ht⟩
  | enter o => exact .inl (List.cons_ne_nil _ _)
  | leave n => exact .inr ⟨n, List.mem_cons_self, isText_leave ha⟩
  | turn o =>
    obtain ⟨_ | ⟨f, frames⟩, nodes⟩ := b
    · -- With no block open there is none to go on with.
      have hnone : action none [] s = .turn o := (action_none nodes s).symm.trans ha
      rcases action_fresh s with ⟨m, hm⟩ | ⟨o', ho⟩
      · rw [hm] at hnone
        cases hnone
      · rw [ho] at hnone
        cases hnone
    · exact .inl (List.cons_ne_nil _ _)

theorem Marked.foldl (hb : b.Marked) (ss : List Segment) : (ss.foldl Builder.step b).Marked := by
  induction ss generalizing b with
  | nil => exact hb
  | cons s ss ih => exact ih (hb.step s)

theorem Marked.finish (hb : b.Marked) : ∃ n ∈ b.finish, isText n = false := by
  unfold Builder.finish
  split
  · next hnil =>
    obtain ⟨n, hn, ht⟩ := hb.resolve_left fun hne => hne (List.getLast?_eq_none_iff.mp hnil)
    exact ⟨n, List.mem_reverse.mpr hn, ht⟩
  · exact ⟨_, List.mem_reverse.mpr List.mem_cons_self, rfl⟩

theorem marked_of_not_isText {s : Segment} (h : ¬ s.IsText) : (start.step s).Marked := by
  cases s with
  | text cs => exact absurd trivial h
  | output expr source => exact .inr ⟨_, List.mem_cons_self, rfl⟩
  | error e => exact .inr ⟨_, List.mem_cons_self, rfl⟩
  | tag content =>
    rw [step_eq]
    change (start.apply (freshAction (keyword content).1 (keyword content).2)).Marked
    unfold freshAction
    split
    · split
      · exact .inr ⟨_, List.mem_cons_self, rfl⟩
      · exact .inl (List.cons_ne_nil _ _)
    · exact .inl (List.cons_ne_nil _ _)
    · exact .inr ⟨_, List.mem_cons_self, Template.isText_ofStatement _ _⟩

end Builder

namespace Template

theorem isPlain_iff (t : Template) : isPlain t = true ↔ ∀ n ∈ t, isText n = true :=
  List.all_eq_true

/-- A template is plain if its segments are text: what is not leaves a node that is no text, or a
block that ends in one or is never closed. -/
theorem isPlain_ofSegments_iff (ss : List Segment) :
    isPlain (ofSegments ss) = true ↔ ∀ s ∈ ss, s.IsText := by
  induction ss with
  | nil => simp [isPlain_iff, ofSegments, Builder.start, Builder.finish]
  | cons s ss ih =>
    rw [List.forall_mem_cons]
    by_cases hs : s.IsText
    · cases s with
      | text cs =>
        rw [ofSegments_text, ← ih, isPlain_iff, isPlain_iff, List.forall_mem_cons]
        simp [isText, Segment.IsText]
      | _ => exact hs.elim
    · obtain ⟨n, hn, ht⟩ := ((Builder.marked_of_not_isText hs).foldl ss).finish
      refine iff_of_false (fun h => ?_) fun h => hs h.1
      rw [(isPlain_iff _).mp h n hn] at ht
      cases ht

end Template

open Segment (trimsBefore)

/-- The literal text of pieces: regions show nothing. -/
abbrev literalText (trimmed : Bool) (ps : List Piece) : List Char :=
  shown (fun _ => []) trimmed ps

theorem length_trimStart_le (cs : List Char) : (trimStart cs).length ≤ cs.length :=
  (List.dropWhile_sublist _).length_le

theorem length_trimEnd_le (cs : List Char) : (trimEnd cs).length ≤ cs.length := by
  obtain ⟨ws, _, h⟩ := exists_trimEnd_append cs
  have hlength := congrArg List.length h
  rw [List.length_append] at hlength
  omega

theorem length_shown_le {region : Region → List Char} (h : ∀ r, (region r).length < r.source.length)
    (trimmed : Bool) (ps : List Piece) :
    (shown region trimmed ps).length + ps.countP Piece.isRegion ≤ (sources ps).length := by
  induction ps generalizing trimmed with
  | nil => exact Nat.le_refl 0
  | cons p ps ih =>
    have hsources : (sources (p :: ps)).length = p.source.length + (sources ps).length := by
      simp [sources]
    rw [hsources]
    cases p with
    | literal cs =>
      have hstart : (if trimmed then trimStart cs else cs).length ≤ cs.length := by
        split
        · exact length_trimStart_le cs
        · exact Nat.le_refl _
      have hend : (if trimsBefore ps then trimEnd (if trimmed then trimStart cs else cs)
          else if trimmed then trimStart cs else cs).length ≤ cs.length := by
        split
        · exact (length_trimEnd_le _).trans hstart
        · exact hstart
      have hps := ih false
      have hcount : (Piece.literal cs :: ps).countP Piece.isRegion = ps.countP Piece.isRegion :=
        List.countP_cons_of_neg Bool.false_ne_true
      rw [shown, List.length_append, hcount]
      simp only [Piece.source]
      omega
    | region r =>
      have hps := ih r.trimAfter
      have hsource := h r
      have hcount : (Piece.region r :: ps).countP Piece.isRegion = ps.countP Piece.isRegion + 1 :=
        List.countP_cons_of_pos rfl
      rw [shown, List.length_append, hcount]
      simp only [Piece.source]
      omega
    | unclosed kind trimBefore source =>
      have hps := ih false
      have hcount : (Piece.unclosed kind trimBefore source :: ps).countP Piece.isRegion =
          ps.countP Piece.isRegion :=
        List.countP_cons_of_neg Bool.false_ne_true
      rw [shown, List.length_append, hcount]
      simp only [Piece.source]
      omega

theorem literalText_ne {r : Region} (hr : .region r ∈ ps) (trimmed : Bool) :
    literalText trimmed ps ≠ sources ps := by
  intro h
  have hcount : 0 < ps.countP Piece.isRegion := List.countP_pos_iff.mpr ⟨_, hr, rfl⟩
  have hlength : (literalText trimmed ps).length + ps.countP Piece.isRegion ≤ (sources ps).length :=
    length_shown_le (fun r => by simp [Region.source_eq]) trimmed ps
  rw [h] at hlength
  omega

theorem isLiteral_iff :
    (∀ p ∈ ps, p.IsLiteral) ↔ (∀ p ∈ ps, p.IsSilent) ∧ ∀ r, .region r ∈ ps → r.kind ≠ .comment := by
  constructor
  · intro h
    refine ⟨fun p hp => (h p hp).isSilent, fun r hr => ?_⟩
    obtain ⟨cs, hcs⟩ := h _ hr
    cases hcs
  · rintro ⟨hsilent, hcomment⟩ p hp
    cases p with
    | literal cs => exact ⟨cs, rfl⟩
    | region r => exact absurd (hsilent _ hp) (hcomment r hp)
    | unclosed => exact (hsilent _ hp).elim

/-- A text with no mark but comments is its literal text if and only if it has no comment. -/
theorem literalText_cut_iff (h : ∀ p ∈ cut cs, p.IsSilent) :
    literalText false (cut cs) = cs ↔ Unopened cs := by
  rw [unopened_iff]
  constructor
  · intro htext
    refine isLiteral_iff.mpr ⟨h, fun r hr => ?_⟩
    exact absurd (htext.trans (sources_cut cs).symm) (literalText_ne hr false)
  · intro hps
    have hcs := sources_cut cs
    rcases (isCut_cut cs).eq_of_isLiteral hps with hnil | ⟨run, hrun, _⟩
    · rw [hnil] at hcs ⊢
      exact hcs
    · rw [hrun] at hcs ⊢
      simpa [shown, trimsBefore, sources, Piece.source] using hcs

namespace Env

open Template (ofSegments)

theorem shows_comment {env : Env} {r : Region} (h : r.kind = .comment) : env.Shows r [] := by
  intro ss
  have hcomment : Segment.ofRegion r = [] := by simp only [Segment.ofRegion, h]
  rw [hcomment, List.nil_append]
  exact (Render.empty_followedBy _).symm

theorem renderNodes_silent {env : Env} (h : ∀ p ∈ ps, p.IsSilent) (trimmed : Bool) :
    env.renderNodes (ofSegments (Segment.ofPieces trimmed ps)) =
      pure (String.ofList (literalText trimmed ps)) := by
  refine renderNodes_shown (fun p hp => ?_) trimmed
  have hsilent := h p hp
  cases p with
  | literal cs => exact .inl ⟨cs, rfl⟩
  | region r => exact .inr ⟨r, rfl, shows_comment hsilent⟩
  | unclosed => exact hsilent.elim

end Env

namespace Template

variable (text : String)

theorem isPlain_parse_iff : isPlain (parse text) = true ↔ ∀ p ∈ cut text.toList, p.IsSilent := by
  rw [parse, isPlain_ofSegments_iff, Segment.scan, Segment.isText_ofPieces_iff]

/-- A template is plain if all regions of its text are comments, none left open. So if there is no
comment, a text is plain if and only if no region opens in it. A plain text is shown without its
comments and changes nothing, and it is shown as it is written if and only if there is no
comment. -/
theorem isPlain_parse :
    (isPlain (parse text) = true ↔ ∀ p ∈ cut text.toList, p.IsSilent) ∧
      (Unopened text.toList ↔
        isPlain (parse text) = true ∧ ∀ r, .region r ∈ cut text.toList → r.kind ≠ .comment) ∧
      (isPlain (parse text) = true →
        (∀ env : Env, ∀ stage,
          (env.render text).run stage =
            (String.ofList (literalText false (cut text.toList)), stage)) ∧
        (String.ofList (literalText false (cut text.toList)) = text ↔ Unopened text.toList)) := by
  have hplain := isPlain_parse_iff text
  refine ⟨hplain, ?_, fun h => ⟨fun env stage => ?_, ?_⟩⟩
  · rw [unopened_iff, isLiteral_iff, hplain]
  · exact congrArg (fun m : Render String => m.run stage)
      (Env.renderNodes_silent (hplain.mp h) false)
  · rw [← literalText_cut_iff (hplain.mp h), ← String.toList_inj, String.toList_ofList]

/-- A comment leaves no node behind, so the template of a text with one can be plain, and the text
is not shown as it is written. -/
theorem isPlain_parse_comment :
    isPlain (parse "a\x7b# note #\x7db") = true ∧ ¬ Unopened "a\x7b# note #\x7db".toList ∧
      ∀ env : Env, ∀ stage, (env.render "a\x7b# note #\x7db").run stage = ("ab", stage) := by
  refine ⟨by decide +kernel, fun h => h .comment ⟨['a'], " note #\x7db".toList, by decide⟩,
    fun env stage => ?_⟩
  have hscan : Segment.scan "a\x7b# note #\x7db".toList = [.text ['a'], .text ['b']] := by
    decide +kernel
  rw [Env.render, parse, hscan]
  rfl

end Template

end Narrative
