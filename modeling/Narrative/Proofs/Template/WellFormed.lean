import Mathlib.Data.List.Induction
import Narrative.Proofs.Template.Grammar

/-! Templates without errors are those that the grammar derives. What is derived the builder reads
node by node, however many blocks are open. In the other direction, as long as no error shows up,
the segments that were read derive the nodes of every open block, and an error that shows up
stays. -/

namespace Narrative

open Template

namespace Builder

mutual

theorem foldl_block : {ss : List Segment} → {ns : List Node} → Block ss ns → (b : Builder) →
    ss.foldl step b = b.pushAll ns
  | _, _, .nil, b => (pushAll_nil b).symm
  | _, _, .cons hn hns, b => by
    rw [List.foldl_append, foldl_statement hn, foldl_block hns, pushAll_cons]

theorem foldl_statement : {ss : List Segment} → {n : Node} → Statement ss n → (b : Builder) →
    ss.foldl step b = b.push n
  | _, _, .text _, _ => rfl
  | _, _, .output _ _, _ => rfl
  | _, _, .assign hs hrest he, b => by
    rw [List.foldl_cons, hs.step rfl, tag_set, Node.ofStatement, assignParts?_of_isPair hrest he]
    rfl
  | _, _, .run hs he, b => by
    rw [List.foldl_cons, hs.step rfl, tag_do, Node.ofStatement, if_neg he]
    rfl
  | _, _, .cond hs htest hbody harms, b => by
    rw [List.foldl_cons, hs.step rfl, tag_if htest, List.foldl_append, foldl_block hbody,
      pushAll_enter, foldl_ending harms, Arms.ofArms_branches]
    rfl
  | _, _, .loop hs hheader hbody ht, b => by
    rw [List.foldl_cons, hs.step rfl, tag_for, List.foldl_append, foldl_block hbody, pushAll_enter,
      List.foldl_cons, ht.step rfl]
    simp only [tag, Node.ofLoop, loopParts?_of_isPair hheader, List.reverse_reverse]
    rfl

theorem foldl_ending : {ss : List Segment} → {arms : Arms} → Ending ss arms →
    (before : List Node) → (frames : List Frame) → (done : List (String × List Node)) →
    (test : String) →
    (body : List Node) → ss.foldl step ⟨⟨.test done test, before⟩ :: frames, body.reverse⟩
      = ⟨frames, .ofArms (arms.branches.reverse ++ (test, body) :: done) arms.otherwise? :: before⟩
  | _, _, .done ht, before, frames, done, test, body => by
    rw [List.foldl_cons, ht.step rfl]
    simp [tag, Arms.branches, Arms.otherwise?]
  | _, _, .otherwise hs hlast ht, before, frames, done, test, body => by
    rw [List.foldl_cons, hs.step rfl]
    simp only [tag]
    rw [List.foldl_append, foldl_block hlast, List.foldl_cons, ht.step rfl]
    simp [tag, pushAll, Arms.branches, Arms.otherwise?]
  | _, _, .elif hs hbody harms, before, frames, done, test, body => by
    rw [List.foldl_cons, hs.step rfl]
    simp only [tag]
    rw [List.foldl_append, foldl_block hbody, pushAll, List.append_nil, foldl_ending harms]
    simp [Arms.branches, Arms.otherwise?]

end

end Builder

namespace Template

mutual

theorem errors_block : {ss : List Segment} → {ns : List Node} → Block ss ns → errors ns = []
  | _, _, .nil => rfl
  | _, _, .cons hn hns => by rw [errors, errors_statement hn, errors_block hns, List.append_nil]

theorem errors_statement : {ss : List Segment} → {n : Node} → Statement ss n → nodeErrors n = []
  | _, _, .text _ | _, _, .output _ _ | _, _, .assign _ _ _ | _, _, .run _ _ => rfl
  | _, _, .cond _ _ hbody harms => by
    rw [nodeErrors, errors_block hbody, errors_ending harms, List.append_nil]
  | _, _, .loop _ _ hbody _ => by rw [nodeErrors, errors_block hbody]

theorem errors_ending : {ss : List Segment} → {arms : Arms} → Ending ss arms → armErrors arms = []
  | _, _, .done _ => rfl
  | _, _, .otherwise _ hbody _ => by rw [armErrors, errors_block hbody]
  | _, _, .elif _ hbody harms => by
    rw [armErrors, errors_block hbody, errors_ending harms, List.append_nil]

end

theorem errors_eq_nil_iff {ns : List Node} : errors ns = [] ↔ ∀ n ∈ ns, nodeErrors n = [] := by
  induction ns with
  | nil => simp [errors]
  | cons n ns ih => simp [errors, ih]

theorem errors_reverse_eq_nil_iff {ns : List Node} : errors ns.reverse = [] ↔ errors ns = [] := by
  simp [errors_eq_nil_iff]

theorem armErrors_ofList (last : Option (List Node)) (arms : List (String × List Node)) :
    armErrors (Arms.ofList last arms) = arms.flatMap (errors ·.2) ++ (last.map errors).getD [] := by
  induction arms with
  | nil => cases last <;> rfl
  | cons arm arms ih => rw [Arms.ofList, armErrors, ih, List.flatMap_cons, List.append_assoc]

theorem of_nodeErrors_ofArms {arms : List (String × List Node)} {last : Option (List Node)}
    (h : nodeErrors (.ofArms arms last) = []) :
    (∀ arm ∈ arms, errors arm.2 = []) ∧ ∀ body ∈ last, errors body = [] := by
  rw [Node.ofArms] at h
  split at h
  · cases h
  · next test body rest hrest =>
    obtain rfl : arms = rest.reverse ++ [(test, body)] := by
      rw [← List.reverse_cons, ← hrest, List.reverse_reverse]
    rw [nodeErrors, armErrors_ofList] at h
    simp only [List.append_eq_nil_iff, List.flatMap_eq_nil_iff] at h
    obtain ⟨hbody, hrest, hlast⟩ := h
    refine ⟨fun arm harm => ?_, fun body hb => ?_⟩
    · rcases List.mem_append.mp harm with harm | harm
      · exact hrest arm (List.mem_reverse.mp harm)
      · rwa [List.mem_singleton.mp harm]
    · rwa [Option.mem_def.mp hb, Option.map_some, Option.getD_some] at hlast

theorem of_nodeErrors_ofLoop {header : String} {body : List Node}
    (h : nodeErrors (.ofLoop header body) = []) :
    (∃ x e, Node.loopParts? header.toList = some (x, e)) ∧ errors body = [] := by
  rw [Node.ofLoop] at h
  split at h
  · next x e hparts => exact ⟨⟨x, e, hparts⟩, by rwa [nodeErrors] at h⟩
  · cases h

end Template

def Opener.arms : Opener → List (String × List Node)
  | .test arms _ | .otherwise arms => arms
  | .loop _ => []

namespace Builder

/-- No error shows up in the nodes of any open block. -/
def IsClean (b : Builder) : Prop :=
  errors b.nodes = [] ∧ ∀ f ∈ b.frames, errors f.before = [] ∧
    ∀ arm ∈ f.opener.arms, errors arm.2 = []

/-- Segments that open a block, up to the arm of it that follows. -/
inductive Opens : List Segment → Opener → Prop
  | test {s test} (hs : s.IsTag "if" test) (htest : test ≠ "") : Opens [s] (.test [] test)
  | elif {s ss ts arms test next body} (h : Opens ss (.test arms test)) (hbody : Block ts body)
      (hs : s.IsTag "elif" next) : Opens (ss ++ (ts ++ [s])) (.test ((test, body) :: arms) next)
  | otherwise {s ss ts arms test ignored body} (h : Opens ss (.test arms test))
      (hbody : Block ts body)
      (hs : s.IsTag "else" ignored) : Opens (ss ++ (ts ++ [s])) (.otherwise ((test, body) :: arms))
  | loop {s header} (hs : s.IsTag "for" header) : Opens [s] (.loop header)

/-- Segments that derive all that a builder holds: the nodes of every open block, and what opened
it. -/
inductive Holds : List Segment → Builder → Prop
  | base {ss nodes} (h : Block ss nodes.reverse) : Holds ss ⟨[], nodes⟩
  | enter {ss os ts o before frames nodes} (h : Holds ss ⟨frames, before⟩) (ho : Opens os o)
      (hbody : Block ts nodes.reverse) : Holds (ss ++ (os ++ ts)) ⟨⟨o, before⟩ :: frames, nodes⟩

theorem Opens.statement :
    {ss : List Segment} → {arms : List (String × List Node)} → {test : String} →
    Opens ss (.test arms test) → {ts us : List Segment} → {body : List Node} → Block ts body →
    {rest : List (String × List Node)} → {last : Option (List Node)} →
    Ending us (Arms.ofList last rest) →
    Statement (ss ++ (ts ++ us)) (.ofArms (rest.reverse ++ (test, body) :: arms) last)
  | _, _, first, .test hs htest, ts, us, body, hbody, rest, last, hend => by
    have hnode : Node.ofArms (rest.reverse ++ [(first, body)]) last =
        .cond first body (Arms.ofList last rest) := by
      simp [Node.ofArms]
    rw [hnode, List.singleton_append]
    exact .cond hs htest hbody hend
  -- The last arm that was turned to is part of the ending of those before it.
  | _, _, next, .elif h hbefore hs, ts, us, body, hbody, rest, last, hend => by
    have hend' : Ending _ (Arms.ofList last ((next, body) :: rest)) := .elif hs hbody hend
    have hrest := h.statement hbefore hend'
    simpa [List.append_assoc] using hrest

variable {b : Builder} {s : Segment} {ss ts : List Segment} {n : Node} {k rest : String}

theorem Holds.push (h : Holds ss b) (hn : Statement ts n) : Holds (ss ++ ts) (b.push n) := by
  have hblock {us nodes} (hnodes : Block us (List.reverse nodes)) :
      Block (us ++ ts) (n :: nodes).reverse := by
    rw [List.reverse_cons]
    exact hnodes.append (.singleton hn)
  cases h with
  | base h => exact .base (hblock h)
  | enter h ho hbody =>
    rw [List.append_assoc, List.append_assoc]
    exact .enter h ho (hblock hbody)

theorem statement_of_nodeErrors (hs : s.IsTag k rest) (h : nodeErrors (.ofStatement k rest) = []) :
    Statement [s] (.ofStatement k rest) := by
  revert h
  unfold Node.ofStatement
  split <;> intro h
  · split at h
    · next x e hparts =>
      obtain ⟨hpair, he⟩ := isPair_of_assignParts? hs.head?_rest hparts
      exact .assign hs hpair he
    · cases h
  · split at h
    · cases h
    · next he =>
      rw [if_neg he]
      exact .run hs he
  all_goals cases h

namespace IsClean

variable {o o' : Opener} {before nodes : List Node} {frames : List Frame} {test : String}

theorem node (h : (b.push n).IsClean) : nodeErrors n = [] :=
  errors_eq_nil_iff.mp h.1 n List.mem_cons_self

theorem of_push (h : (b.push n).IsClean) : b.IsClean :=
  ⟨errors_eq_nil_iff.mpr fun m hm => errors_eq_nil_iff.mp h.1 m (.tail n hm), h.2⟩

theorem of_enter (h : (b.enter o).IsClean) : b.IsClean :=
  ⟨(h.2 _ List.mem_cons_self).1, fun f hf => h.2 f (.tail _ hf)⟩

theorem of_turn (h : IsClean ⟨⟨o', before⟩ :: frames, []⟩)
    (harms : o'.arms = (test, nodes.reverse) :: o.arms) :
    IsClean ⟨⟨o, before⟩ :: frames, nodes⟩ := by
  obtain ⟨⟨hbefore, ho⟩, hframes⟩ := List.forall_mem_cons.mp h.2
  rw [harms] at ho
  obtain ⟨hnodes, ho⟩ := List.forall_mem_cons.mp ho
  exact ⟨errors_reverse_eq_nil_iff.mp hnodes, List.forall_mem_cons.mpr ⟨⟨hbefore, ho⟩, hframes⟩⟩

theorem of_leave (h : IsClean ⟨frames, n :: before⟩)
    (hn : nodeErrors n = [] → errors nodes.reverse = [] ∧ ∀ arm ∈ o.arms, errors arm.2 = []) :
    IsClean ⟨⟨o, before⟩ :: frames, nodes⟩ := by
  have hbefore : IsClean ⟨frames, before⟩ := of_push (b := ⟨frames, before⟩) h
  obtain ⟨hnodes, ho⟩ := hn (node (b := ⟨frames, before⟩) h)
  exact ⟨errors_reverse_eq_nil_iff.mp hnodes, List.forall_mem_cons.mpr ⟨⟨hbefore.1, ho⟩, h.2⟩⟩

theorem of_step (h : (b.step s).IsClean) : b.IsClean := by
  cases s with
  | tag content =>
    revert h
    obtain ⟨frames, nodes⟩ := b
    unfold step tag
    dsimp only
    split <;> intro h
    · exact of_turn h rfl
    · exact of_turn h rfl
    · exact of_leave h fun hn => List.forall_mem_cons.mp (of_nodeErrors_ofArms hn).1
    · exact of_leave h fun hn => ⟨(of_nodeErrors_ofArms hn).2 _ rfl, (of_nodeErrors_ofArms hn).1⟩
    · exact of_leave h fun hn => ⟨(of_nodeErrors_ofLoop hn).2, List.forall_mem_nil _⟩
    · split at h
      · exact of_push h
      · exact of_enter h
    · exact of_enter h
    · exact of_push h
  | _ => exact of_push h

end IsClean

/-- As long as no error shows up, a tag is a statement of the innermost block, opens a block, or
goes on with the innermost one or ends it as the grammar says. -/
theorem Holds.tag (h : Holds ss b) (hs : s.IsTag k rest) (hclean : (b.tag k rest).IsClean) :
    Holds (ss ++ [s]) (b.tag k rest) := by
  obtain ⟨frames, nodes⟩ := b
  revert hclean
  unfold Builder.tag
  dsimp only
  split <;> intro hclean
  · cases h with
    | enter h ho hbody => simpa [List.append_assoc] using Holds.enter h (ho.elif hbody hs) .nil
  · cases h with
    | enter h ho hbody => simpa [List.append_assoc] using Holds.enter h (ho.otherwise hbody hs) .nil
  · cases h with
    | enter h ho hbody =>
      have hend : Ending [s] (Arms.ofList none []) := .done hs
      simpa [List.append_assoc, Builder.push] using h.push (ho.statement hbody hend)
  · cases h with
    | enter h ho hbody =>
      cases ho with
      | otherwise ho hlast ht =>
        have hend : Ending _ (Arms.ofList (some nodes.reverse) []) := .otherwise ht hbody hs
        simpa [List.append_assoc, Builder.push] using h.push (ho.statement hlast hend)
  · cases h with
    | enter h ho hbody =>
      cases ho with
      | loop ht =>
        obtain ⟨⟨x, e, hparts⟩, -⟩ := of_nodeErrors_ofLoop (IsClean.node (b := ⟨_, _⟩) hclean)
        have hstatement := Statement.loop ht (isPair_of_loopParts? ht.head?_rest hparts) hbody hs
        rw [Node.ofLoop, hparts]
        simpa [List.append_assoc, Builder.push] using h.push hstatement
  · split at hclean
    · cases hclean.node
    · next hne =>
      rw [if_neg hne]
      exact .enter h (.test hs hne) .nil
  · exact .enter h (.loop hs) .nil
  · exact h.push (statement_of_nodeErrors hs hclean.node)

theorem holds_foldl (ss : List Segment) (h : (ss.foldl step start).IsClean) :
    Holds ss (ss.foldl step start) := by
  -- From the end: no error after all of the segments means none after fewer.
  induction ss using List.reverseRecOn with
  | nil => exact .base .nil
  | append_singleton ss s ih =>
    rw [List.foldl_append] at h ⊢
    have hss := ih h.of_step
    cases s with
    | text cs => exact hss.push (.text cs)
    | output expr source => exact hss.push (.output expr source)
    | error e => cases h.node
    | tag content => exact hss.tag (Segment.isTag_keyword content) h

end Builder

namespace Template

variable {ss : List Segment} {t : Template}

/-- Segments are parsed without errors as what they derive, and only then. -/
theorem block_iff : Block ss t ↔ ofSegments ss = t ∧ errors t = [] := by
  constructor
  · intro h
    refine ⟨?_, errors_block h⟩
    rw [ofSegments, Builder.foldl_block h]
    simp [Builder.finish, Builder.pushAll, Builder.start]
  · rintro ⟨rfl, herrors⟩
    have hframes : (ss.foldl Builder.step Builder.start).frames = [] :=
      frames_of_closed (by simp [herrors])
    cases hfold : ss.foldl Builder.step Builder.start with
    | mk frames nodes =>
    obtain rfl : frames = [] := by rwa [hfold] at hframes
    have ht : ofSegments ss = nodes.reverse := by
      rw [ofSegments, hfold]
      rfl
    have hclean : (ss.foldl Builder.step Builder.start).IsClean := by
      rw [ht, errors_reverse_eq_nil_iff] at herrors
      rw [hfold]
      exact ⟨herrors, List.forall_mem_nil _⟩
    have hholds := Builder.holds_foldl ss hclean
    rw [hfold] at hholds
    cases hholds with
    | base h => rwa [ht]

mutual

theorem error_notMem_block (e : TemplateError) :
    {ss : List Segment} → {ns : List Node} → Block ss ns → .error e ∉ ss
  | _, _, .nil => List.not_mem_nil
  | _, _, .cons hn hns => by simp [error_notMem_statement e hn, error_notMem_block e hns]

theorem error_notMem_statement (e : TemplateError) :
    {ss : List Segment} → {n : Node} → Statement ss n →
    .error e ∉ ss
  | _, _, .text _ | _, _, .output _ _ => by simp
  | _, _, .assign hs _ _ | _, _, .run hs _ => by simpa using hs.ne_error e
  | _, _, .cond hs _ hbody harms => by
    simp [hs.ne_error e, error_notMem_block e hbody, error_notMem_ending e harms]
  | _, _, .loop hs _ hbody ht => by simp [hs.ne_error e, ht.ne_error e, error_notMem_block e hbody]

theorem error_notMem_ending (e : TemplateError) :
    {ss : List Segment} → {arms : Arms} → Ending ss arms →
    .error e ∉ ss
  | _, _, .done ht => by simpa using ht.ne_error e
  | _, _, .otherwise hs hbody ht => by
    simp [hs.ne_error e, ht.ne_error e, error_notMem_block e hbody]
  | _, _, .elif hs hbody harms => by
    simp [hs.ne_error e, error_notMem_block e hbody, error_notMem_ending e harms]

end

theorem subset_told {p : Piece} {ps : List Piece} (before : Option Piece) (h : p ∈ ps) :
    ∃ b a, p.told b a ⊆ Segment.told before ps := by
  induction ps generalizing before with
  | nil => cases h
  | cons q ps ih =>
    rcases List.mem_cons.mp h with rfl | h
    · exact ⟨before, ps.head?, List.subset_append_left _ _⟩
    · obtain ⟨b, a, hsub⟩ := ih (some q) h
      exact ⟨b, a, List.Subset.trans hsub (List.subset_append_right _ _)⟩

theorem wellFormed_iff {ps : List Piece} : WellFormed ps t ↔ Block (Segment.told none ps) t := by
  refine ⟨WellFormed.derived, fun h => ⟨fun p hp => ?_, fun r hr hkind hempty => ?_, h⟩⟩
  · obtain ⟨b, a, hsub⟩ := subset_told none hp
    cases p with
    | unclosed kind trimBefore source =>
      exact absurd (hsub (List.mem_singleton_self _)) (error_notMem_block _ h)
    | _ => rfl
  · obtain ⟨b, a, hsub⟩ := subset_told none hr
    refine error_notMem_block .emptyOutput h (hsub ?_)
    simp [Piece.told, hkind, hempty]

theorem derives_iff {text : String} : Derives text t ↔ parse text = t ∧ errors t = [] := by
  have hscan : Segment.scan text.toList = Segment.told none (cut text.toList) :=
    Segment.ofPieces_eq_told none (cut text.toList)
  rw [parse, hscan, ← block_iff, ← wellFormed_iff]
  constructor
  · rintro ⟨ps, hps, h⟩
    rwa [← cuts_iff.mp hps]
  · exact fun h => ⟨_, cuts_iff.mpr rfl, h⟩

/-- A template has no errors exactly when its text is derived from the grammar, and then it is the
tree of that derivation. -/
theorem errors_parse_eq_nil_iff (text : String) :
    (errors (parse text) = [] ↔ ∃ t, Derives text t) ∧ ∀ t, Derives text t → parse text = t := by
  refine ⟨⟨fun h => ⟨parse text, derives_iff.mpr ⟨rfl, h⟩⟩, ?_⟩, fun t h => (derives_iff.mp h).1⟩
  rintro ⟨t, h⟩
  obtain ⟨rfl, herrors⟩ := derives_iff.mp h
  exact herrors

def rosterText : String :=
  "\x7b% for n in names %\x7d\x7b%- if n %\x7d\x7b\x7b n \x7d\x7d\x7b% elif %\x7d-\x7b# or #\x7d\x7b% else x %\x7d\x7b% set k = n %\x7d"
    ++ "\x7b% endif %\x7d\x7b% endfor n %\x7d"

def rosterTree : Template :=
  [.loop "n" "names"
    [.cond "n" [.output "n" "\x7b\x7b n \x7d\x7d"]
      (.elif "" [.text "-"] (.otherwise [.assign "k" "n"]))]]

theorem errors_parse_eq_nil_iff_roster :
    Derives rosterText rosterTree ∧ errors (parse rosterText) = [] ∧
      parse rosterText = rosterTree := by
  have htag {k rest : String} {content : List Char} (h : Builder.keyword content = (k, rest)) :
      (Segment.tag content).IsTag k rest := by
    have hs := Segment.isTag_keyword content
    rwa [h] at hs
  have hsegments : Segment.told none (cut rosterText.toList) =
      [.tag "for n in names".toList, .tag "if n".toList, .output ['n'] "\x7b\x7b n \x7d\x7d".toList,
        .tag "elif".toList, .text ['-'], .tag "else x".toList, .tag "set k = n".toList,
        .tag "endif".toList, .tag "endfor n".toList] := by
    decide +kernel
  have hset : IsPair ['='] "k = n" "k" "n" :=
    ⟨by decide +kernel, [' '], [' ', 'n'], by decide +kernel, by simp; decide, by decide,
      by decide +kernel⟩
  have hheader : IsPair [' ', 'i', 'n', ' '] "n in names" "n" "names" :=
    ⟨by decide +kernel, [], "names".toList, by decide +kernel, by simp, by decide +kernel,
      by decide +kernel⟩
  have hfor : (Segment.tag "for n in names".toList).IsTag "for" "n in names" :=
    htag (by decide +kernel)
  have hif : (Segment.tag "if n".toList).IsTag "if" "n" := htag (by decide +kernel)
  have helif : (Segment.tag "elif".toList).IsTag "elif" "" := htag (by decide +kernel)
  have helse : (Segment.tag "else x".toList).IsTag "else" "x" := htag (by decide +kernel)
  have hassign : (Segment.tag "set k = n".toList).IsTag "set" "k = n" := htag (by decide +kernel)
  have hendif : (Segment.tag "endif".toList).IsTag "endif" "" := htag (by decide +kernel)
  have hendfor : (Segment.tag "endfor n".toList).IsTag "endfor" "n" := htag (by decide +kernel)
  have harms := Ending.elif helif (.singleton (.text ['-']))
    (.otherwise helse (.singleton (.assign hassign hset (by decide +kernel))) hendif)
  have hcond :=
    Statement.cond hif (by decide) (.singleton (.output ['n'] "\x7b\x7b n \x7d\x7d".toList)) harms
  have hderives : Derives rosterText rosterTree := by
    refine ⟨cut rosterText.toList, cuts_iff.mpr rfl, wellFormed_iff.mpr ?_⟩
    rw [hsegments]
    exact .singleton (.loop hfor hheader (.singleton hcond) hendfor)
  exact ⟨hderives, (errors_parse_eq_nil_iff rosterText).1.mpr ⟨_, hderives⟩,
    (errors_parse_eq_nil_iff rosterText).2 _ hderives⟩

end Template

end Narrative
