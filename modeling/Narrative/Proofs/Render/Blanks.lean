import Mathlib.Data.List.Forall2
import Narrative.Proofs.Render.Append
import Narrative.Proofs.Render.Prepared
import Narrative.Proofs.Template.Blanks
import Narrative.Proofs.Template.Header

/-! Templates whose tags have other blanks. A template without errors is derived from its segments,
so with other blanks in them it is derived again, statement by statement, and is shown alike. A loop
header alone can lose what it is parted at. -/

namespace Narrative

namespace Env

variable {env : Env} {source source' : String}

theorem evalText_reblanked (h : Reblanked .outside source.toList source'.toList)
    (scopes : List Scope) : env.evalText scopes source' = env.evalText scopes source := by
  simp only [evalText, Expr.parse_reblanked h]

theorem condition_reblanked (h : Reblanked .outside source.toList source'.toList)
    (scopes : List Scope) : env.condition scopes source' = env.condition scopes source := by
  simp only [condition, evalText_reblanked h]

/-- A later test of an `if` is shown as an `if` of its own. -/
theorem renderArms_elif (env : Env) (test : String) (body : List Node) (arms : Arms) :
    env.renderArms (.elif test body arms) = env.renderNode (.cond test body arms) := by
  rw [renderArms, renderNode]

theorem renderNode_cond_reblanked {body body' : List Node} {arms arms' : Arms}
    (htest : Reblanked .outside source.toList source'.toList)
    (hbody : env.renderNodes body' = env.renderNodes body)
    (harms : env.renderArms arms' = env.renderArms arms) :
    env.renderNode (.cond source' body' arms') = env.renderNode (.cond source body arms) := by
  rw [renderNode, renderNode]
  refine evaluate_bind_congr (condition_reblanked htest) fun r => ?_
  rcases r with err | _ | _
  · rfl
  · exact harms
  · exact hbody

theorem renderNode_loop_reblanked {x : String} {body body' : List Node}
    (he : Reblanked .outside source.toList source'.toList)
    (hbody : env.renderNodes body' = env.renderNodes body) :
    env.renderNode (.loop x source' body') = env.renderNode (.loop x source body) := by
  rw [renderNode, renderNode, hbody]
  exact evaluate_bind_congr (evalText_reblanked he) fun _ => rfl

end Env

theorem Reblanked.ne_empty {s s' : String} (h : Reblanked .outside s.toList s'.toList)
    (hne : s ≠ "") : s' ≠ "" := by
  rintro rfl
  refine hne (String.toList_eq_nil_iff.mp (List.length_eq_zero_iff.mp ?_))
  rw [h.length_eq]
  rfl

theorem Segment.IsTag.keyword_inj {s : Segment} {k k' rest rest' : String} (h : s.IsTag k rest)
    (h' : s.IsTag k' rest') (hk : k.toList.all (!isBlank ·) = true)
    (hk' : k'.toList.all (!isBlank ·) = true) : k = k' ∧ rest = rest' := by
  obtain ⟨tail, rfl, -⟩ := id h
  exact Prod.mk.inj ((h.keyword hk).symm.trans (h'.keyword hk'))

section Lists

variable {α β : Type} {R : α → β → Prop} {a : α} {as bs : List α} {cs : List β}

theorem exists_singleton_of_forall₂ (h : List.Forall₂ R [a] cs) : ∃ b, cs = [b] ∧ R a b := by
  obtain ⟨b, bs, hb, hbs, rfl⟩ := List.forall₂_cons_left_iff.mp h
  cases hbs
  exact ⟨b, rfl, hb⟩

theorem exists_append_of_forall₂ (h : List.Forall₂ R (as ++ bs) cs) :
    ∃ us vs, cs = us ++ vs ∧ List.Forall₂ R as us ∧ List.Forall₂ R bs vs := by
  induction as generalizing cs with
  | nil => exact ⟨[], cs, rfl, .nil, h⟩
  | cons a as ih =>
    obtain ⟨b, rest, hb, hrest, rfl⟩ := List.forall₂_cons_left_iff.mp h
    obtain ⟨us, vs, rfl, hus, hvs⟩ := ih hrest
    exact ⟨b :: us, vs, rfl, .cons hb hus, hvs⟩

theorem exists_cons_append_of_forall₂ (h : List.Forall₂ R (a :: (as ++ bs)) cs) :
    ∃ b us vs, cs = b :: (us ++ vs) ∧ R a b ∧ List.Forall₂ R as us ∧ List.Forall₂ R bs vs := by
  obtain ⟨b, rest, hb, hrest, rfl⟩ := List.forall₂_cons_left_iff.mp h
  obtain ⟨us, vs, rfl, hus, hvs⟩ := exists_append_of_forall₂ hrest
  exact ⟨b, us, vs, rfl, hb, hus, hvs⟩

end Lists

namespace Template

open Segment (Respaced)
open Env (evaluate_bind_congr evalText_reblanked renderArms_elif renderNode_cond_reblanked
  renderNode_loop_reblanked
  renderNodes_cons)

mutual

theorem block_respaced : {ss ss' : List Segment} → {ns : List Node} → Block ss ns →
    List.Forall₂ Respaced ss ss' →
    ∃ ns', Block ss' ns' ∧ ∀ env : Env, env.renderNodes ns' = env.renderNodes ns
  | _, _, _, .nil, h => by
    cases h
    exact ⟨[], .nil, fun _ => rfl⟩
  | _, _, _, .cons hn hns, h => by
    obtain ⟨us, vs, rfl, hus, hvs⟩ := exists_append_of_forall₂ h
    obtain ⟨n', hn', hnode⟩ := statement_respaced hn hus
    obtain ⟨ns', hns', hnodes⟩ := block_respaced hns hvs
    exact ⟨n' :: ns', .cons hn' hns',
      fun env => by rw [renderNodes_cons, renderNodes_cons, hnode, hnodes]⟩

theorem statement_respaced :
    {ss ss' : List Segment} → {n : Node} → Statement ss n → List.Forall₂ Respaced ss ss' →
    ∃ n', Statement ss' n' ∧ ∀ env : Env, env.renderNode n' = env.renderNode n
  | _, _, _, .text cs, h => by
    obtain ⟨s', rfl, hs⟩ := exists_singleton_of_forall₂ h
    cases hs
    exact ⟨_, .text cs, fun _ => rfl⟩
  | _, _, _, .output expr source, h => by
    obtain ⟨s', rfl, hs⟩ := exists_singleton_of_forall₂ h
    cases hs
    exact ⟨_, .output expr source, fun _ => rfl⟩
  | _, _, _, .assign hs hrest he, h => by
    obtain ⟨s', rfl, hr⟩ := exists_singleton_of_forall₂ h
    obtain ⟨rest', hs', hrest', -⟩ := hs.respaced hr rfl
    obtain ⟨e', hpair', he', hexpr⟩ := hrest.respaced_assign he hrest'
    refine ⟨_, .assign hs' hpair' he', fun env => ?_⟩
    rw [Env.renderNode, Env.renderNode]
    exact evaluate_bind_congr (evalText_reblanked hexpr) fun _ => rfl
  | _, _, _, .run hs he, h => by
    obtain ⟨s', rfl, hr⟩ := exists_singleton_of_forall₂ h
    obtain ⟨e', hs', hexpr, -⟩ := hs.respaced hr rfl
    refine ⟨_, .run hs' (hexpr.ne_empty he), fun env => ?_⟩
    rw [Env.renderNode, Env.renderNode]
    exact evaluate_bind_congr (evalText_reblanked hexpr) fun _ => rfl
  | _, _, _, .cond hs htest hbody harms, h => by
    obtain ⟨s', us, vs, rfl, hr, hus, hvs⟩ := exists_cons_append_of_forall₂ h
    obtain ⟨test', hs', hexpr, -⟩ := hs.respaced hr rfl
    obtain ⟨body', hbody', hnodes⟩ := block_respaced hbody hus
    obtain ⟨arms', harms', hends⟩ := ending_respaced harms hvs
    exact ⟨_, .cond hs' (hexpr.ne_empty htest) hbody' harms', fun env =>
      renderNode_cond_reblanked hexpr (hnodes env) (hends env)⟩
  | _, _, _, .loop hs hheader hbody ht, h => by
    obtain ⟨s', us, vs, rfl, hr, hus, hvs⟩ := exists_cons_append_of_forall₂ h
    obtain ⟨t', rfl, hrt⟩ := exists_singleton_of_forall₂ hvs
    obtain ⟨header', hs', hheader', hmark⟩ := hs.respaced hr rfl
    obtain ⟨ignored', ht', -, -⟩ := ht.respaced hrt rfl
    obtain ⟨e', hpair', hexpr⟩ := (hheader.respaced_loop hheader').2 (hmark rfl)
    obtain ⟨body', hbody', hnodes⟩ := block_respaced hbody hus
    exact ⟨_, .loop hs' hpair' hbody' ht', fun env => renderNode_loop_reblanked hexpr (hnodes env)⟩

theorem ending_respaced :
    {ss ss' : List Segment} → {arms : Arms} → Ending ss arms → List.Forall₂ Respaced ss ss' →
    ∃ arms', Ending ss' arms' ∧ ∀ env : Env, env.renderArms arms' = env.renderArms arms
  | _, _, _, .done ht, h => by
    obtain ⟨t', rfl, hr⟩ := exists_singleton_of_forall₂ h
    obtain ⟨ignored', ht', -, -⟩ := ht.respaced hr rfl
    exact ⟨_, .done ht', fun _ => rfl⟩
  | _, _, _, .otherwise hs hbody ht, h => by
    obtain ⟨s', us, vs, rfl, hr, hus, hvs⟩ := exists_cons_append_of_forall₂ h
    obtain ⟨t', rfl, hrt⟩ := exists_singleton_of_forall₂ hvs
    obtain ⟨ignored', hs', -, -⟩ := hs.respaced hr rfl
    obtain ⟨ignored₂, ht', -, -⟩ := ht.respaced hrt rfl
    obtain ⟨body', hbody', hnodes⟩ := block_respaced hbody hus
    exact ⟨_, .otherwise hs' hbody' ht', fun env => by rw [Env.renderArms, Env.renderArms, hnodes]⟩
  | _, _, _, .elif hs hbody harms, h => by
    obtain ⟨s', us, vs, rfl, hr, hus, hvs⟩ := exists_cons_append_of_forall₂ h
    obtain ⟨test', hs', hexpr, -⟩ := hs.respaced hr rfl
    obtain ⟨body', hbody', hnodes⟩ := block_respaced hbody hus
    obtain ⟨arms', harms', hends⟩ := ending_respaced harms hvs
    refine ⟨_, .elif hs' hbody' harms', fun env => ?_⟩
    rw [renderArms_elif, renderArms_elif]
    exact renderNode_cond_reblanked hexpr (hnodes env) (hends env)

end

def LoopsPaired (ss : List Segment) : Prop :=
  ∀ s ∈ ss, ∀ header, s.IsTag "for" header → ∃ x e, IsPair [' ', 'i', 'n', ' '] header x e

namespace LoopsPaired

variable {s : Segment} {ss ts : List Segment} {k rest : String}

theorem nil : LoopsPaired [] :=
  List.forall_mem_nil _

theorem append (hs : LoopsPaired ss) (ht : LoopsPaired ts) : LoopsPaired (ss ++ ts) :=
  List.forall_mem_append.mpr ⟨hs, ht⟩

theorem cons_tag (ht : s.IsTag k rest) (hk : k.toList.all (!isBlank ·) = true) (hne : k ≠ "for")
    (hss : LoopsPaired ss) : LoopsPaired (s :: ss) :=
  List.forall_mem_cons.mpr ⟨fun _ hs => absurd (ht.keyword_inj hs hk rfl).1 hne, hss⟩

end LoopsPaired

mutual

theorem loopsPaired_block : {ss : List Segment} → {ns : List Node} → Block ss ns → LoopsPaired ss
  | _, _, .nil => .nil
  | _, _, .cons hn hns => (loopsPaired_statement hn).append (loopsPaired_block hns)

theorem loopsPaired_statement : {ss : List Segment} → {n : Node} → Statement ss n → LoopsPaired ss
  | _, _, .text _ | _, _, .output _ _ => by
    refine List.forall_mem_singleton.mpr fun header hs => ?_
    obtain ⟨tail, hs, -⟩ := hs
    cases hs
  | _, _, .assign hs _ _ | _, _, .run hs _ => .cons_tag hs rfl (by decide) .nil
  | _, _, .cond hs _ hbody harms =>
    .cons_tag hs rfl (by decide) ((loopsPaired_block hbody).append (loopsPaired_ending harms))
  | _, _, .loop hs hheader hbody ht => by
    refine List.forall_mem_cons.mpr ⟨fun header hs' => ?_, ?_⟩
    · obtain rfl := (hs'.keyword_inj hs rfl rfl).2
      exact ⟨_, _, hheader⟩
    · exact (loopsPaired_block hbody).append (.cons_tag ht rfl (by decide) .nil)

theorem loopsPaired_ending : {ss : List Segment} → {arms : Arms} → Ending ss arms → LoopsPaired ss
  | _, _, .done ht => .cons_tag ht rfl (by decide) .nil
  | _, _, .otherwise hs hbody ht =>
    .cons_tag hs rfl (by decide)
      ((loopsPaired_block hbody).append (.cons_tag ht rfl (by decide) .nil))
  | _, _, .elif hs hbody harms =>
    .cons_tag hs rfl (by decide) ((loopsPaired_block hbody).append (loopsPaired_ending harms))

end

/-- In two templates without errors the mark of a loop header is found in the same place, if the
tags differ in blanks alone. -/
theorem loopMark?_of_blocks {ss ss' : List Segment} {ns ns' : List Node}
    {content content' : List Char} (h : Reblanked .outside content content') (hblock : Block ss ns)
    (hmem : .tag content ∈ ss) (hblock' : Block ss' ns') (hmem' : .tag content' ∈ ss') :
      loopMark? content' = loopMark? content := by
  by_cases hfor : (Builder.keyword content).1 = "for"
  · have hs := Segment.isTag_keyword content
    rw [hfor] at hs
    obtain ⟨header', hs', hheader⟩ := hs.reblanked h rfl
    obtain ⟨x, e, hpair⟩ := loopsPaired_block hblock _ hmem _ hs
    rw [hs.loopMark?, hs'.loopMark?]
    exact (hpair.respaced_loop hheader).1.mp (loopsPaired_block hblock' _ hmem' _ hs')
  · rw [loopMark?_of_ne hfor, loopMark?_of_ne (h.keyword_eq ▸ hfor)]

section Text

variable {text : String} {before after : List Piece} {r : Region} {body : List Char}

def withBody (before : List Piece) (r : Region) (after : List Piece) (body : List Char) : String :=
  String.ofList (sources (before ++ .region { r with body } :: after))

theorem cut_withBody (hcut : cut text.toList = before ++ .region r :: after) (hkind : r.kind = .tag)
    (hbody : Reblanked .outside r.body body) :
    cut (withBody before r after body).toList = before ++ .region { r with body } :: after := by
  have hisCut : IsCut (before ++ .region r :: after) := hcut ▸ isCut_cut text.toList
  have hwhole : r.IsWhole := hisCut.isWhole (by simp)
  rw [withBody, String.toList_ofList]
  exact cut_sources (hisCut.replace (hwhole.respaced (by simp [hkind]) hbody))

theorem scan_withBody (hcut : cut text.toList = before ++ .region r :: after)
    (hkind : r.kind = .tag) (hbody : Reblanked .outside r.body body) : ∃ front back,
      Segment.scan text.toList = front ++ .tag (trim r.body) :: back ∧
        Segment.scan (withBody before r after body).toList = front ++ .tag (trim body) :: back := by
  obtain ⟨front, back, h⟩ := Segment.ofPieces_tag r.trimBefore r.trimAfter false before after
  obtain ⟨kind, trimBefore, old, trimAfter⟩ := r
  obtain rfl : kind = .tag := hkind
  refine ⟨front, back, ?_, ?_⟩
  · rw [Segment.scan, hcut]
    exact h old
  · rw [Segment.scan, cut_withBody hcut rfl hbody]
    exact h body

/-- With other blanks outside quotations in one of its tags, a text without errors has none, and is
shown alike from every stage, if the tag is no loop header. A loop header has to keep the spaces of
the mark that it is parted at; then, and only then, the same holds. -/
theorem render_respaced (herrors : errors (parse text) = [])
    (hcut : cut text.toList = before ++ .region r :: after) (hkind : r.kind = .tag)
    (hbody : Reblanked .outside r.body body) :
    ((Builder.keyword (trim r.body)).1 ≠ "for" →
      errors (parse (withBody before r after body)) = []) ∧
      (errors (parse (withBody before r after body)) = [] ↔
        loopMark? (trim body) = loopMark? (trim r.body)) ∧
      (errors (parse (withBody before r after body)) = [] →
        ∀ env : Env, ∀ stage, (env.render (withBody before r after body)).run stage =
          (env.render text).run stage) := by
  obtain ⟨front, back, hscan, hscan'⟩ := scan_withBody hcut hkind hbody
  have hblock : Block (front ++ .tag (trim r.body) :: back) (parse text) :=
    block_iff.mpr ⟨by rw [parse, hscan], herrors⟩
  have hmark : loopMark? (trim body) = loopMark? (trim r.body) →
      Block (front ++ .tag (trim body) :: back) (parse (withBody before r after body)) ∧
        ∀ env : Env, env.render (withBody before r after body) = env.render text := by
    intro hmark
    have hsegments : List.Forall₂ Respaced (front ++ .tag (trim r.body) :: back)
        (front ++ .tag (trim body) :: back) :=
      List.rel_append (List.forall₂_same.mpr fun s _ => .same s)
        (.cons (.tag hbody.trims hmark) (List.forall₂_same.mpr fun s _ => .same s))
    obtain ⟨ns, hns, hshown⟩ := block_respaced hblock hsegments
    have hparse : parse (withBody before r after body) = ns := by
      rw [parse, hscan', (block_iff.mp hns).1]
    exact ⟨hparse ▸ hns, fun env => by rw [Env.render, Env.render, hparse, hshown]⟩
  have hiff : errors (parse (withBody before r after body)) = [] ↔
      loopMark? (trim body) = loopMark? (trim r.body) := by
    refine ⟨fun herrors' => ?_, fun h => (block_iff.mp (hmark h).1).2⟩
    have hblock' :
        Block (front ++ .tag (trim body) :: back) (parse (withBody before r after body)) :=
      block_iff.mpr ⟨by rw [parse, hscan'], herrors'⟩
    exact loopMark?_of_blocks hbody.trims hblock (by simp) hblock' (by simp)
  refine ⟨fun hkeyword => hiff.mpr ?_, hiff, fun herrors' env stage => ?_⟩
  · rw [loopMark?_of_ne hkeyword, loopMark?_of_ne (hbody.trims.keyword_eq ▸ hkeyword)]
  · rw [(hmark (hiff.mp herrors')).2]

theorem render_respaced_wrapped :
    let text := "\x7b% set x = 'a b' %\x7d\x7b\x7b x \x7d\x7d"
    let wrapped := "\x7b%\nset\tx =\u00a0'a b'\n%\x7d\x7b\x7b x \x7d\x7d"
    errors (parse text) = [] ∧ errors (parse wrapped) = [] ∧
      ∀ env : Env, ∀ stage, (env.render wrapped).run stage = (env.render text).run stage := by
  intro text wrapped
  let r : Region := ⟨.tag, false, " set x = 'a b' ".toList, false⟩
  let output : Region := ⟨.output, false, " x ".toList, false⟩
  let body := "\nset\tx =\u00a0'a b'\n".toList
  have herrors : errors (parse text) = [] := by decide +kernel
  have hcut : cut text.toList = [] ++ .region r :: [.region output] := by decide +kernel
  have hbody : Reblanked .outside r.body body := by decide +kernel
  have hwrapped : withBody [] r [.region output] body = wrapped := by decide +kernel
  obtain ⟨hother, -, hshown⟩ := render_respaced herrors hcut rfl hbody
  have herrors' := hother (by decide +kernel)
  rw [hwrapped] at herrors' hshown
  exact ⟨herrors, herrors', hshown herrors'⟩

/-- A loop header that is wrapped before its `in` is none. -/
theorem render_respaced_loop :
    let env : Env := Registry.core.env ∅
    let stage : Stage := ⟨[∅], ⟨{}, ⟨7⟩⟩⟩
    let text := "\x7b% for x in range(2) %\x7d\x7b\x7b x \x7d\x7d\x7b% endfor %\x7d"
    let wrapped := "\x7b% for x\nin range(2) %\x7d\x7b\x7b x \x7d\x7d\x7b% endfor %\x7d"
    errors (parse text) = [] ∧ ((env.render text).run stage).1 = "01" ∧
      Reblanked .outside " for x in range(2) ".toList " for x\nin range(2) ".toList ∧
      errors (parse wrapped) = [.malformedFor "x\nin range(2)"] ∧
        ((env.render wrapped).run stage).1 ≠ "01" := by
  intro env stage text wrapped
  exact ⟨by decide +kernel, by decide +kernel, by decide +kernel, by decide +kernel,
    by decide +kernel⟩

end Text

end Template

end Narrative
