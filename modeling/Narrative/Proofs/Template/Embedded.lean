import Narrative.Proofs.Render.Append
import Narrative.Proofs.Session.Action
import Narrative.Proofs.Shorthand.Words
import Narrative.Proofs.Template.Cutting
import Narrative.Proofs.Template.RoundTrip

/-! Expressions and shorthand calls in regions. What the lexer accepts has its quotations where the
scanner has them, and is read from its region as it is. Shorthand can leave a quotation open at its
end, and then its region does too. -/

namespace Narrative

open Shorthand (Quotation)
open Region (padded Passed)
open Template

variable {cs : List Char} {ts : List Token} {kind : RegionKind}

namespace Token

theorem lex_blanks (h : ∀ c ∈ cs, isBlank c = true) : lex cs = .ok [] := by
  induction cs with
  | nil => exact lex_nil
  | cons c cs ih =>
    rw [lex_blank (h c List.mem_cons_self)]
    exact ih fun d hd => h d (.tail c hd)

theorem trim_ne_nil_of_lex (h : lex cs = .ok ts) (hne : ts ≠ []) : trim cs ≠ [] := by
  intro hnil
  rw [lex_blanks (trim_eq_nil_iff.mp hnil)] at h
  cases h
  exact hne rfl

end Token

namespace Template

theorem parse_of_read {s : String} {n : Node}
    (h : Builder.start.read s.toList = Builder.start.push n) : parse s = [n] := by
  change (Builder.start.read s.toList).finish = [n]
  rw [h]
  rfl

theorem parse_outputText {src : String} (h : (padded .output src.toList).IsWhole)
    (hne : trim src.toList ≠ []) :
    parse (outputText src) = [.output (String.ofList (trim src.toList)) (outputText src)] := by
  have hread : Builder.start.read ((outputText src).toList ++ []) = _ :=
    Builder.read_outputText h hne
  rw [List.append_nil, Builder.read_nil] at hread
  exact parse_of_read hread

theorem parse_do {src : String} (hp : Passed .tag src.toList) (hne : trim src.toList ≠ []) :
    parse (statementText "do" src) = [.run (String.ofList (trim src.toList))] := by
  have hread : Builder.start.read ((statementText "do" src).toList ++ []) = _ :=
    Builder.read_statementText (by decide) hp hne
  have hrun : Node.ofStatement "do" (String.ofList (trim src.toList)) =
      .run (String.ofList (trim src.toList)) := by
    simp [Node.ofStatement, hne]
  rw [List.append_nil, Builder.read_nil, Builder.tag_do, hrun] at hread
  exact parse_of_read hread

/-- Whatever stands in its string literals, a text that the lexer accepts is read from an output and
from a `do` statement as it is, without the blanks around it. -/
theorem parse_lexed {src : String} (h : Token.lex src.toList = .ok ts) (hne : ts ≠ []) :
    parse (outputText src) = [.output (String.ofList (trim src.toList)) (outputText src)] ∧
      parse (statementText "do" src) = [.run (String.ofList (trim src.toList))] :=
  ⟨parse_outputText (Region.padded_isWhole (.lex (by decide) h)) (Token.trim_ne_nil_of_lex h hne),
    parse_do (.lex (by decide) h) (Token.trim_ne_nil_of_lex h hne)⟩

def markersQuoted : String :=
  "\"\x7d\x7d %\x7d\\\\\" ~ 'it\\'s \x7b\x7b' "

theorem parse_lexed_quoted :
    ∃ ts, Token.lex markersQuoted.toList = .ok ts ∧ ts ≠ [] ∧
      parse (outputText markersQuoted)
        = [.output (String.ofList (trim markersQuoted.toList)) (outputText markersQuoted)] ∧
      parse (statementText "do" markersQuoted) =
        [.run (String.ofList (trim markersQuoted.toList))] := by
  have hlex : Token.lex markersQuoted.toList =
      .ok [.text "\x7d\x7d %\x7d\\", .symbol .tilde, .text "it's \x7b\x7b"] := by
    with_unfolding_all rfl
  have hne : [Token.text "\x7d\x7d %\x7d\\", .symbol .tilde, .text "it's \x7b\x7b"] ≠ [] :=
    List.cons_ne_nil _ _
  exact ⟨_, hlex, hne, parse_lexed hlex hne⟩

end Template

namespace Region

variable {as rest before after : List Char}

theorem content_padded (kind : RegionKind) (cs : List Char) :
    (padded kind cs).content = ' ' :: (cs ++ [' ']) :=
  List.append_nil _

theorem quotation_padded_iff :
    kind.quotation (' ' :: (cs ++ [' '])) = .outside ↔ kind.quotation cs = .outside := by
  unfold RegionKind.quotation
  split
  · exact Iff.rfl
  · rw [Quotation.run_outside_cons (by decide), Quotation.run_outside_concat_iff (by decide)]

theorem infix_of_padded (h : [kind.closing, '\x7d'] <:+: ' ' :: (cs ++ [' '])) :
    [kind.closing, '\x7d'] <:+: cs := by
  rcases List.infix_cons_iff.mp h with hfirst | h
  · obtain ⟨t, ht⟩ := hfirst
    cases kind <;> cases ht
  rcases List.infix_concat_iff.mp h with hlast | h
  · obtain ⟨t, ht⟩ := hlast
    have hbrace : t ++ [kind.closing] ++ ['\x7d'] = cs ++ [' '] := by simpa using ht
    cases (List.append_inj' hbrace rfl).2
  · exact h

/-- Where a content without a closing marker stands between two blanks, no closing marker comes
before their end. -/
theorem length_le_of_marker (hmark : ¬ [kind.closing, '\x7d'] <:+: cs)
    (htext : ' ' :: (cs ++ [' ']) ++ rest = before ++ after)
    (hafter : [kind.closing, '\x7d'] <+: after) :
    (' ' :: (cs ++ [' '])).length ≤ before.length := by
  rcases List.append_eq_append_iff.mp htext with ⟨as, rfl, -⟩ | ⟨as, has, rfl⟩
  · rw [List.length_append]
    exact Nat.le_add_right _ _
  match as with
  | [] => exact Nat.le_of_eq (congrArg List.length (has.trans (List.append_nil before)))
  | [d] =>
    -- The blank after the content is no part of a marker.
    have hd : ' ' :: cs ++ [' '] = before ++ [d] := has
    obtain rfl : ' ' = d := by simpa using (List.append_inj' hd rfl).2
    obtain ⟨t, ht⟩ := hafter
    cases kind <;> cases ht
  | d :: e :: as =>
    obtain ⟨t, ht⟩ := hafter
    obtain ⟨rfl, rfl, -⟩ : kind.closing = d ∧ '\x7d' = e ∧ t = as ++ rest := by simpa using ht
    exact absurd (infix_of_padded (has ▸ ⟨before, as, by simp⟩)) hmark

theorem padded_isWhole_of_closed (hmark : ¬ [kind.closing, '\x7d'] <:+: cs)
    (hclosed : kind.quotation cs = .outside) : (padded kind cs).IsWhole := by
  refine (isWhole_iff _ []).mpr ⟨fun _ => ?_, fun _ => ?_, ?_⟩
  · rw [content_padded]
    simp
  · have hlast : (' ' :: cs ++ [' ']).getLast? = some ' ' := List.getLast?_concat
    exact fun h => by cases hlast.symm.trans h
  · rw [content_padded]
    exact ⟨rfl, quotation_padded_iff.mpr hclosed,
      fun before after htext h => length_le_of_marker hmark htext h.2⟩

theorem ofOpened?_padded_of_open (hmark : ¬ [kind.closing, '\x7d'] <:+: cs)
    (hopen : kind.quotation cs ≠ .outside) : ofOpened? kind (padded kind cs).inside = none := by
  refine ofOpened?_eq_none_iff.mpr fun before after htext h => ?_
  have htext : ' ' :: (cs ++ [' ']) ++ [kind.closing, '\x7d'] = before ++ after := by
    simpa [inside, padded, dash, undash, dashed] using htext
  have hlength := congrArg List.length htext
  have hle := length_le_of_marker hmark htext h.2
  have hafter := h.2.length_le
  have hbefore : ' ' :: (cs ++ [' ']) = before := by
    refine (List.append_inj htext ?_).1
    simp only [List.length_append, List.length_cons, List.length_nil] at hlength hle hafter ⊢
    omega
  rw [← hbefore] at h
  exact hopen (quotation_padded_iff.mp h.1)

end Region

namespace Template

theorem trim_outputText (content : String) :
    trim (outputText content).toList = (outputText content).toList := by
  have htext : (outputText content).toList
      = '\x7b' :: ('\x7b' :: ' ' :: content.toList ++ [' ', '\x7d'] ++ ['\x7d']) := by
    simp [outputText]
  rw [htext, trim_cons_of_not_blank (by decide), trimEnd_append _ ⟨'\x7d', by decide⟩]
  rfl

theorem parse_outputText_of_open {content : String} (hmark : ¬ ['\x7d', '\x7d'] <:+: content.toList)
    (hopen : Quotation.outside.run content.toList ≠ .outside) :
    parse (outputText content) = [.error (.unclosedRegion .output (outputText content))] := by
  have hsource := Region.source_eq (padded .output content.toList)
  have hcut : cut (outputText content).toList =
      [.unclosed .output false (outputText content).toList] := by
    rw [outputText_toList, hsource]
    exact cut_unclosed (Region.ofOpened?_padded_of_open hmark hopen)
  have hread : Builder.start.read (outputText content).toList
      = Builder.start.push (.error (.unclosedRegion .output (outputText content))) := by
    rw [Builder.read, Segment.scan, hcut]
    simp [Segment.ofPieces, Builder.step, trim_outputText]
  exact parse_of_read hread

end Template

namespace Env

variable {env : Env} {content call : String} {e : Expr}

theorem outputSource_of_call (h : Shorthand.call? env.isVerb content = some call) :
    env.outputSource content = call := by
  rw [outputSource, h, Option.getD_some]

theorem render_output {text source : String}
    (hparse : Template.parse text = [.output content source])
    (h : Expr.parse (env.outputSource content) = .ok e) (stage : Stage) :
      (env.render text).run stage =
      let answer := (env.eval stage.scopes e).run stage.scene
      (outcomeText answer.1, { stage with scene := answer.2 }) := by
  rw [render, hparse, renderNodes_cons, renderNodes, renderNode, Render.followedBy_run]
  simp only [output_run_of_parse h]
  exact Prod.ext String.append_empty rfl

theorem content_ne_nil (h : Shorthand.call? env.isVerb content = some call) :
    content.toList ≠ [] := by
  intro hnil
  have hwords : Shorthand.words content = [] := by
    rw [Shorthand.words, hnil]
    rfl
  rw [Shorthand.call?, hwords] at h
  cases h

/-- A shorthand call without a closing marker is read from an output region, and is executed when
that is rendered, if and only if none of its words leaves a quotation open. The region is not closed
otherwise. -/
theorem shorthand_embedded (hcall : Shorthand.call? env.isVerb content = some call)
    (hparse : Expr.parse call = .ok e) (htrim : trim content.toList = content.toList)
    (hmark : ¬ ['\x7d', '\x7d'] <:+: content.toList) :
    (parse (outputText content) = [.output content (outputText content)] ↔
      ∀ w ∈ Shorthand.words content, Quotation.outside.run w.toList = .outside) ∧
    (parse (outputText content) = [.output content (outputText content)] → ∀ stage,
      (env.render (outputText content)).run stage =
        let answer := (env.eval stage.scopes e).run stage.scene
        (outcomeText answer.1, { stage with scene := answer.2 })) ∧
    (parse (outputText content) ≠ [.output content (outputText content)] →
      parse (outputText content) = [.error (.unclosedRegion .output (outputText content))]) := by
  have hclosed : Quotation.outside.run content.toList = .outside →
      parse (outputText content) = [.output content (outputText content)] := by
    intro hrun
    have hne : trim content.toList ≠ [] := htrim.symm ▸ content_ne_nil hcall
    rw [parse_outputText (Region.padded_isWhole_of_closed hmark hrun) hne, htrim,
      String.ofList_toList]
  rw [Shorthand.words_closed_iff]
  by_cases hrun : Quotation.outside.run content.toList = .outside
  · have houtput := hclosed hrun
    refine ⟨iff_of_true houtput hrun, fun h => render_output h ?_, fun h => absurd houtput h⟩
    rw [outputSource_of_call hcall, hparse]
  · have hopen := parse_outputText_of_open hmark hrun
    refine ⟨iff_of_false ?_ hrun, fun h => ?_, fun _ => hopen⟩
    · rw [hopen]
      exact fun h => by cases h
    · rw [hopen] at h
      cases h

theorem shorthand_embedded_quoted :
    let env : Env := Registry.core.env ∅
    let content := "travel_to o'hare 's"
    ∃ call e, Shorthand.call? env.isVerb content = some call ∧ Expr.parse call = .ok e ∧
      trim content.toList = content.toList ∧ ¬ ['\x7d', '\x7d'] <:+: content.toList ∧
      parse (outputText content) = [.output content (outputText content)] ∧
      ∀ stage, (env.render (outputText content)).run stage =
        let answer := (env.eval stage.scopes e).run stage.scene
        (outcomeText answer.1, { stage with scene := answer.2 }) := by
  intro env content
  have hcall : Shorthand.call? env.isVerb content = some "travel_to('o\\'hare \\'s')" := by
    decide +kernel
  have hparse : Expr.parse "travel_to('o\\'hare \\'s')" =
      .ok (.call "travel_to" [.lit (.text "o'hare 's")]) := by
    with_unfolding_all rfl
  have htrim : trim content.toList = content.toList := by decide +kernel
  have hmark : ¬ ['\x7d', '\x7d'] <:+: content.toList := by decide +kernel
  obtain ⟨hiff, hrender, -⟩ := shorthand_embedded hcall hparse htrim hmark
  have houtput := hiff.mpr (by decide +kernel)
  exact ⟨_, _, hcall, hparse, htrim, hmark, houtput, hrender houtput⟩

/-- A word can be made the text that it stands for, with its apostrophe, and still leave its region
open. -/
theorem not_shorthand_embedded_apostrophe :
    ¬ ∀ (env : Env) (content call : String) (e : Expr),
    Shorthand.call? env.isVerb content = some call →
      Expr.parse call = .ok e → trim content.toList = content.toList →
        ¬ ['\x7d', '\x7d'] <:+: content.toList →
        parse (outputText content) = [.output content (outputText content)] := by
  intro h
  have hcall : Shorthand.call? (Registry.core.env ∅).isVerb "travel_to o'hare"
      = some "travel_to('o\\'hare')" := by decide +kernel
  have hparse : Expr.parse "travel_to('o\\'hare')" =
      .ok (.call "travel_to" [.lit (.text "o'hare")]) := by
    with_unfolding_all rfl
  have herrors : errors (parse (outputText "travel_to o'hare"))
      = [.unclosedRegion .output (outputText "travel_to o'hare")] := by decide +kernel
  rw [h _ _ _ _ hcall hparse (by decide +kernel) (by decide +kernel)] at herrors
  cases herrors

end Env

end Narrative
