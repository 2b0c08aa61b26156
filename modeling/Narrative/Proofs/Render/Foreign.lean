import Narrative.Proofs.Render.Append
import Narrative.Proofs.Shorthand.Foreign

/-! Texts with shorthand for verbs that do not exist. Such a text is shown as it is written and
changes nothing, but for the blanks that a dash takes away. -/

namespace Narrative

open Segment (trimsBefore)

/-- The text of pieces, with a text of its own for each region. A dash takes away the blanks next to
its region, and what is never closed is shown as it is written. -/
def shown (region : Region → List Char) (trimmed : Bool) : List Piece → List Char
  | [] => []
  | .literal cs :: ps =>
    let cs := if trimmed then trimStart cs else cs
    (if trimsBefore ps then trimEnd cs else cs) ++ shown region false ps
  | .region r :: ps => region r ++ shown region r.trimAfter ps
  | .unclosed _ _ source :: ps => source ++ shown region false ps

/-- No blank stands next to a dash, outside its region. -/
def Snug (trimmed : Bool) : List Piece → Prop
  | [] => True
  | .literal cs :: ps =>
    (trimmed = true → ∀ c, cs.head? = some c → isBlank c = false) ∧
      (trimsBefore ps = true → ∀ c, cs.getLast? = some c → isBlank c = false) ∧ Snug false ps
  | .region r :: ps => Snug r.trimAfter ps
  | .unclosed _ _ _ :: ps => Snug false ps

theorem Snug.shown_eq {trimmed : Bool} {ps : List Piece} (h : Snug trimmed ps) :
    shown Region.source trimmed ps = sources ps := by
  induction ps generalizing trimmed with
  | nil => rfl
  | cons p ps ih =>
    cases p with
    | literal cs =>
      obtain ⟨hstart, hend, hps⟩ := h
      have hs : (if trimmed then trimStart cs else cs) = cs := by
        split
        · next ht => exact trimStart_of_head (hstart ht)
        · rfl
      have he : (if trimsBefore ps then trimEnd cs else cs) = cs := by
        split
        · next ht => exact trimEnd_of_last (hend ht)
        · rfl
      rw [shown, hs, he, ih hps]
      rfl
    | region r => exact congrArg (r.source ++ ·) (ih h)
    | unclosed kind trimBefore source => exact congrArg (source ++ ·) (ih h)

namespace Template

theorem ofSegments_text (cs : List Char) (ss : List Segment) :
    ofSegments (.text cs :: ss) = .text (String.ofList cs) :: ofSegments ss :=
  finish_foldl [_] ss

theorem ofSegments_output (expr source : List Char) (ss : List Segment) :
    ofSegments (.output expr source :: ss)
      = .output (String.ofList expr) (String.ofList source) :: ofSegments ss :=
  finish_foldl [_] ss

end Template

namespace Env

open Template (ofSegments ofSegments_text ofSegments_output)

variable {env : Env}

/-- The region is shorthand for a verb that does not exist: a name that is no verb, and data behind
it which are not all to be subtracted. -/
structure Foreign (env : Env) (r : Region) : Prop where
  kind : r.kind = .output
  words : ∃ head args, Shorthand.words (String.ofList (trim r.body)) = head :: args ∧
    isName head = true ∧
    env.isVerb head = false ∧ (∀ w ∈ args, Shorthand.Datum w) ∧ ∃ w ∈ args, ¬ Shorthand.Subtracts w

namespace Foreign

variable {r : Region}

theorem output (h : env.Foreign r) (source : String) :
    env.output (String.ofList (trim r.body)) source = pure source := by
  obtain ⟨head, args, hwords, hname, hverb, hdata, hadd⟩ := h.words
  have hcall : Shorthand.call? env.isVerb (String.ofList (trim r.body)) = none := by
    simp only [Shorthand.call?, hwords, hverb]
    rfl
  have hsource : env.outputSource (String.ofList (trim r.body)) = String.ofList (trim r.body) := by
    rw [outputSource, hcall]
    rfl
  have hforeign : env.isForeign (String.ofList (trim r.body)) = true := by
    obtain ⟨w, hw, -⟩ := hadd
    rw [isForeign, hcall, Shorthand.hasForm_of_data hwords hname (List.ne_nil_of_mem hw) hdata]
    rfl
  obtain ⟨e, he⟩ := Shorthand.parse_words_error hwords hname hdata hadd
  unfold Env.output
  rw [hsource]
  simp only [he, hforeign, if_true]

theorem ofRegion (h : env.Foreign r) : Segment.ofRegion r = [.output (trim r.body) r.source] := by
  have hne : (trim r.body).isEmpty = false := by
    obtain ⟨head, args, hwords, -⟩ := h.words
    refine Bool.eq_false_iff.mpr fun he => ?_
    rw [List.isEmpty_iff.mp he] at hwords
    cases hwords
  simp only [Segment.ofRegion, h.kind, hne]
  rfl

end Foreign

def ForeignPieces (env : Env) (ps : List Piece) : Prop :=
  ∀ p ∈ ps, (∃ cs, p = .literal cs) ∨ ∃ r, p = .region r ∧ env.Foreign r

theorem renderNodes_ofLiteral (cs : List Char) (ss : List Segment) :
    env.renderNodes (ofSegments (Segment.ofLiteral cs ++ ss))
      = (pure (String.ofList cs) : Render String).followedBy (env.renderNodes (ofSegments ss)) := by
  cases cs with
  | nil => exact (Render.empty_followedBy _).symm
  | cons c cs =>
    have hsegments : Segment.ofLiteral (c :: cs) ++ ss = .text (c :: cs) :: ss := rfl
    rw [hsegments, ofSegments_text, renderNodes_cons, renderNode]

/-- The region is rendered to a text, whatever is behind it, and changes nothing. -/
def Shows (env : Env) (r : Region) (cs : List Char) : Prop :=
  ∀ ss, env.renderNodes (ofSegments (Segment.ofRegion r ++ ss)) =
    (pure (String.ofList cs) : Render String).followedBy (env.renderNodes (ofSegments ss))

theorem renderNodes_shown {region : Region → List Char} {ps : List Piece}
    (h : ∀ p ∈ ps, (∃ cs, p = .literal cs) ∨ ∃ r, p = .region r ∧ env.Shows r (region r))
    (trimmed : Bool) : env.renderNodes (ofSegments (Segment.ofPieces trimmed ps)) =
      pure (String.ofList (shown region trimmed ps)) := by
  induction ps generalizing trimmed with
  | nil => rfl
  | cons p ps ih =>
    obtain ⟨hp, hps⟩ := List.forall_mem_cons.mp h
    rcases hp with ⟨cs, rfl⟩ | ⟨r, rfl, hr⟩
    · rw [Segment.ofPieces, renderNodes_ofLiteral, ih hps, shown, String.ofList_append]
      rfl
    · rw [Segment.ofPieces, hr, ih hps, shown, String.ofList_append]
      rfl

theorem Foreign.shows {r : Region} (h : env.Foreign r) : env.Shows r r.source := by
  intro ss
  rw [h.ofRegion, List.singleton_append, ofSegments_output, renderNodes_cons, renderNode, h.output]

theorem renderNodes_foreign {ps : List Piece} (h : env.ForeignPieces ps) (trimmed : Bool) :
    env.renderNodes (ofSegments (Segment.ofPieces trimmed ps)) =
      pure (String.ofList (shown Region.source trimmed ps)) :=
  renderNodes_shown
    (fun p hp => (h p hp).imp_right fun ⟨r, hr, hforeign⟩ => ⟨r, hr, hforeign.shows⟩) trimmed

/-- A text in which every region is shorthand for a verb that does not exist is shown as it is
written, without the blanks next to a dash, and nothing is changed. -/
theorem render_foreign {text : String} (h : env.ForeignPieces (cut text.toList)) (stage : Stage) :
    (env.render text).run stage =
      (String.ofList (shown Region.source false (cut text.toList)), stage) ∧
      (Snug false (cut text.toList) → (env.render text).run stage = (text, stage)) := by
  have hrun : (env.render text).run stage =
      (String.ofList (shown Region.source false (cut text.toList)), stage) :=
    congrArg (fun m : Render String => m.run stage) (renderNodes_foreign h false)
  refine ⟨hrun, fun hsnug => ?_⟩
  rw [hrun, hsnug.shown_eq, sources_cut, String.ofList_toList]

def song : String :=
  "So \x7b\x7b hum \"a b\" -3 \x7d\x7d\x7b\x7b-nope x-\x7d\x7d."

theorem render_foreign_song :
    let env : Env := Registry.core.env ∅
    env.ForeignPieces (cut song.toList) ∧ Snug false (cut song.toList) ∧
      ∀ stage, (env.render song).run stage = (song, stage) := by
  intro env
  have hcut : cut song.toList =
      [.literal "So ".toList, .region ⟨.output, false, " hum \"a b\" -3 ".toList, false⟩,
        .region ⟨.output, true, "nope x".toList, true⟩, .literal ".".toList] := by
    decide +kernel
  have hhum : env.Foreign ⟨.output, false, " hum \"a b\" -3 ".toList, false⟩ := by
    refine ⟨rfl, "hum", ["\"a b\"", "-3"], by decide +kernel, by decide, by decide +kernel,
      fun w hw => ?_,
      "\"a b\"", by simp, fun ⟨ds, h, _⟩ => absurd (List.cons.inj h).1 (by decide)⟩
    rcases List.mem_pair.mp hw with rfl | rfl
    · exact .quoted ⟨'"', "a b".toList, rfl,
        .plain (by decide) (by decide) (.plain (by decide) (by decide)
        (.plain (by decide) (by decide) .nil)), rfl⟩
    · exact .integer ⟨true, ['3'], ⟨by decide, by simp⟩, rfl⟩
  have hnope : env.Foreign ⟨.output, true, "nope x".toList, true⟩ := by
    refine ⟨rfl, "nope", ["x"], by decide +kernel, by decide, by decide +kernel,
      fun w hw => ?_, "x", by simp,
      fun ⟨ds, h, _⟩ => absurd (List.cons.inj h).1 (by decide)⟩
    exact List.mem_singleton.mp hw ▸ .name (by decide)
  have hpieces : env.ForeignPieces (cut song.toList) := by
    rw [hcut]
    simpa [ForeignPieces] using And.intro hhum hnope
  have hsnug : Snug false (cut song.toList) := by
    rw [hcut]
    simp [Snug, trimsBefore, isBlank, blankRanges]
  exact ⟨hpieces, hsnug, fun stage => (render_foreign hpieces stage).2 hsnug⟩

/-- A dash takes away a blank before its region, and numbers behind a name that are all negative are
subtracted from it. -/
theorem render_foreign_not_written :
    let env : Env := Registry.core.env ∅
    let stage : Stage := ⟨[∅], ⟨{}, ⟨7⟩⟩⟩
    let dashed := "a \x7b\x7b- nope 1 \x7d\x7d"
    let negative := "\x7b\x7b nope -5 \x7d\x7d"
    env.isVerb "nope" = false ∧ isName "nope" = true ∧
      cut dashed.toList = [.literal "a ".toList,
        .region ⟨.output, true, " nope 1 ".toList, false⟩] ∧
      Shorthand.words (String.ofList (trim " nope 1 ".toList)) = ["nope", "1"] ∧
        Shorthand.Datum "1" ∧
      ((env.render dashed).run stage).1 ≠ dashed ∧
      cut negative.toList = [.region ⟨.output, false, " nope -5 ".toList, false⟩] ∧
      Shorthand.words (String.ofList (trim " nope -5 ".toList)) = ["nope", "-5"] ∧
        Shorthand.Datum "-5" ∧
      ((env.render negative).run stage).1 ≠ negative := by
  intro env stage dashed negative
  have hone : Shorthand.Datum "1" := .integer ⟨false, ['1'], ⟨by decide, by simp⟩, rfl⟩
  have hfive : Shorthand.Datum "-5" := .integer ⟨true, ['5'], ⟨by decide, by simp⟩, rfl⟩
  exact ⟨by decide +kernel, by decide, by decide +kernel, by decide +kernel, hone,
    by decide +kernel,
    by decide +kernel, by decide +kernel, hfive, by decide +kernel⟩

end Env

end Narrative
