import Narrative.Lint
import Narrative.Proofs.Render.Prepared
import Narrative.Proofs.Shorthand.Call
import Narrative.Registry

/-! What a text without a fault promises. The checks find all that keeps a text from being prepared,
but for one thing: of shorthand they do not read the call. -/

namespace Narrative

namespace Template

mutual

def nodeOutputs : Node → List String
  | .output content _ => [content]
  | .cond _ body arms => outputs body ++ armOutputs arms
  | .loop _ _ body => outputs body
  | _ => []

/-- The contents of the outputs of a template, those in its blocks included. -/
def outputs : List Node → List String
  | [] => []
  | n :: ns => nodeOutputs n ++ outputs ns

def armOutputs : Arms → List String
  | .done => []
  | .otherwise body => outputs body
  | .elif _ body arms => outputs body ++ armOutputs arms

end

end Template

namespace Lint

open Template

/-- Nothing is found that is sure to fail. -/
def Clean (faults : List Fault) : Prop :=
  ∀ f ∈ faults, f.isWarning = true

@[simp]
theorem clean_nil : Clean [] :=
  List.forall_mem_nil _

@[simp]
theorem clean_append {fs gs : List Fault} : Clean (fs ++ gs) ↔ Clean fs ∧ Clean gs :=
  List.forall_mem_append

@[simp]
theorem clean_singleton {f : Fault} : Clean [f] ↔ f.isWarning = true :=
  List.forall_mem_singleton

theorem clean_errors {es : List TemplateError} : Clean (es.map .template) ↔ es = [] := by
  cases es with
  | nil => simp
  | cons e es =>
    refine iff_of_false (fun h => ?_) (List.cons_ne_nil e es)
    exact Bool.false_ne_true (h (.template e) (by simp))

/-- If the output is shorthand, its call can be read. -/
def CallReads (isVerb : String → Bool) (content : String) : Prop :=
  ∀ call, Shorthand.call? isVerb content = some call → (Expr.parse? call).isSome = true

theorem expression_clean (isVerb : String → Bool) (bound : List String) (source : String) :
    Clean (expression isVerb bound source) ↔ (Expr.parse? source).isSome = true := by
  cases hparse : Expr.parse? source with
  | none =>
    obtain ⟨err, herr⟩ := Expr.parse?_eq_none hparse
    have hfaults : expression isVerb bound source = [.expression err] := by
      unfold expression
      rw [herr]
    simp [hfaults, Fault.isWarning]
  | some e =>
    refine iff_of_true ?_ rfl
    unfold expression
    rw [Expr.parse?_eq_some hparse]
    dsimp only
    split
    · exact clean_nil
    · split
      · split
        · exact clean_nil
        · exact clean_singleton.mpr rfl
      · split
        · exact clean_nil
        · exact clean_singleton.mpr rfl

variable {isVerb : String → Bool}

theorem output_clean (bound : List String) (content source : String) :
    (prepareOutput? isVerb content source).isSome = true ↔
      Clean (output isVerb bound content) ∧ CallReads isVerb content := by
  unfold prepareOutput? output CallReads
  cases hcall : Shorthand.call? isVerb content with
  | some call => simp
  | none =>
    have hexpr := expression_clean isVerb bound content
    cases hparse : Expr.parse? content with
    | some e =>
      have hok := Expr.parse?_eq_some hparse
      simp_all [Except.isOk, Except.toBool]
    | none =>
      obtain ⟨err, herr⟩ := Expr.parse?_eq_none hparse
      by_cases hform : Shorthand.hasForm content = true
      · simp [hform, herr, Except.isOk, Except.toBool, Fault.isWarning]
      · simp [hform, hexpr, hparse]

-- The bound names differ from node to node, but only warnings depend on them.
mutual

theorem node_clean (n : Node) (bound : List String) :
    (prepareNode? isVerb n).isSome = true ↔
      nodeErrors n = [] ∧ Clean (node isVerb bound n).1 ∧
        ∀ content ∈ nodeOutputs n, CallReads isVerb content := by
  cases n with
  | text s => simp [prepareNode?, nodeErrors, node, nodeOutputs]
  | output content source => simp [prepareNode?, nodeErrors, node, nodeOutputs, output_clean bound]
  | cond test body arms =>
    simp only [isSome_prepareNode?_cond, nodeErrors, node, nodeOutputs, Bool.and_eq_true,
      clean_append, List.append_eq_nil_iff, List.forall_mem_append, expression_clean,
      nodes_clean body bound, arms_clean arms bound]
    tauto
  | loop var iterable body =>
    simp only [isSome_prepareNode?_loop, nodeErrors, node, nodeOutputs, Bool.and_eq_true,
      clean_append, expression_clean, nodes_clean body (var :: "loop" :: bound)]
    tauto
  | assign name source => simp [prepareNode?, nodeErrors, node, nodeOutputs, expression_clean]
  | run source => simp [prepareNode?, nodeErrors, node, nodeOutputs, expression_clean]
  | error err => simp [prepareNode?, nodeErrors]

theorem nodes_clean (t : Template) (bound : List String) :
    (prepare? isVerb t).isSome = true ↔
      errors t = [] ∧ Clean (nodes isVerb bound t) ∧
        ∀ content ∈ outputs t, CallReads isVerb content := by
  cases t with
  | nil => simp [prepare?, errors, nodes, outputs]
  | cons n ns =>
    simp only [isSome_prepare?_cons, errors, nodes, outputs, Bool.and_eq_true, clean_append,
      List.append_eq_nil_iff, List.forall_mem_append, node_clean n bound,
      nodes_clean ns (node isVerb bound n).2]
    tauto

theorem arms_clean (rest : Arms) (bound : List String) :
    (prepareArms? isVerb rest).isSome = true ↔
      armErrors rest = [] ∧ Clean (arms isVerb bound rest) ∧
        ∀ content ∈ armOutputs rest, CallReads isVerb content := by
  cases rest with
  | done => simp [prepareArms?, armErrors, arms, armOutputs]
  | otherwise body =>
    simp only [prepareArms?, armErrors, arms, armOutputs, Option.isSome_map, nodes_clean body bound]
  | elif test body rest =>
    simp only [isSome_prepareArms?_elif, armErrors, arms, armOutputs, Bool.and_eq_true,
      clean_append, List.append_eq_nil_iff, List.forall_mem_append, expression_clean,
      nodes_clean body bound, arms_clean rest bound]
    tauto

end

theorem template_clean (text : String) :
    (prepare? isVerb (parse text)).isSome = true ↔
      Clean (template isVerb text) ∧
        ∀ content ∈ outputs (parse text), CallReads isVerb content := by
  rw [nodes_clean (parse text) [], template, clean_append, clean_errors, and_assoc]

/-- The call of shorthand can be read if every word that starts with a quote is one quoted text, and
no whole number is too large. -/
theorem callReads_of_words {content head : String} {ws : List String}
    (hwords : Shorthand.words content = head :: ws) (hname : isName head = true)
    (hquoted : ∀ w ∈ ws, Shorthand.StartsQuoted w.toList → ∃ s, Shorthand.Quoted w.toList s)
    (hfit : ∀ w ∈ ws, ∀ negative ds, Digits ds → w.toList = Shorthand.signed negative ds →
      (Nat.ofDigitChars 10 ds 0 : Int) ≤ greatestWord) : CallReads isVerb content := by
  intro call hcall
  have hshort : isVerb head = true ∧ ∀ w, ws.head? = some w → w.toList.head? ≠ some '(' := by
    simp only [Shorthand.call?, hwords] at hcall
    split at hcall
    · cases hcall
    · next h =>
      simp only [Bool.or_eq_true, Bool.not_eq_true', not_or, Bool.not_eq_false] at h
      refine ⟨h.1, fun w hw hopen => h.2 ?_⟩
      rw [hw, Option.any_some, hopen]
      rfl
  obtain ⟨vs, hvs⟩ := Shorthand.exists_denoteAll hquoted hfit
  obtain ⟨s, hs, htext⟩ := Shorthand.call?_eq_some hwords hshort.1 hshort.2
  obtain rfl := Option.some.inj (hs.symm.trans hcall)
  rw [Expr.parse?, Shorthand.parse_callText hname hvs (by simp) htext]
  rfl

/-- A text can be prepared exactly if nothing is found in it that is sure to fail, and the calls of
its shorthand can be read. It is then rendered as what it is prepared to be, whatever the state and
the names in scope are. -/
theorem clean_prepared (isVerb : String → Bool) (text : String) :
    ((prepare? isVerb (parse text)).isSome = true ↔
      Clean (template isVerb text) ∧ ∀ content ∈ outputs (parse text), CallReads isVerb content) ∧
    ∀ ps, prepare? isVerb (parse text) = some ps →
      ∀ env : Env, env.isVerb = isVerb → env.render text = env.perform ps := by
  refine ⟨template_clean text, fun ps hps env henv => ?_⟩
  subst henv
  exact env.renderNodes_prepared (parse text) hps

def tip : String :=
  "\x7b% if gold > 3 %\x7d\x7b\x7b take_gold 3 \x7d\x7d\x7b% else %\x7d\x7b\x7b haggle a \x7d\x7d\x7b% endif %\x7d"

theorem clean_prepared_tip :
    let isVerb := Registry.core.contains
    Clean (template isVerb tip) ∧ outputs (parse tip) = ["take_gold 3", "haggle a"] ∧
      ∃ ps, prepare? isVerb (parse tip) = some ps ∧
        ∀ globals, (Registry.core.env globals).render tip =
          (Registry.core.env globals).perform ps := by
  intro isVerb
  have hclean : Clean (template isVerb tip) := by
    unfold Clean
    decide +kernel
  have houtputs : outputs (parse tip) = ["take_gold 3", "haggle a"] := by decide +kernel
  have htake : CallReads isVerb "take_gold 3" := by
    have hwords : Shorthand.words "take_gold 3" = ["take_gold", "3"] := by decide +kernel
    refine callReads_of_words hwords (by decide) (by simp [Shorthand.StartsQuoted, isQuote]) ?_
    intro w hw negative ds hd he
    obtain rfl := List.mem_singleton.mp hw
    cases negative
    · obtain rfl : ds = ['3'] := he.symm
      decide
    · cases he
  have hhaggle : CallReads isVerb "haggle a" := by
    have hnone : Shorthand.call? isVerb "haggle a" = none := by decide +kernel
    intro call hcall
    rw [hnone] at hcall
    cases hcall
  have hall : ∀ content ∈ outputs (parse tip), CallReads isVerb content := by
    rw [houtputs]
    simp [htake, hhaggle]
  obtain ⟨hiff, hrender⟩ := clean_prepared isVerb tip
  obtain ⟨ps, hps⟩ := Option.isSome_iff_exists.mp (hiff.mpr ⟨hclean, hall⟩)
  exact ⟨hclean, houtputs, ps, hps, fun globals => hrender ps hps _ rfl⟩

/-- Shorthand with a number that is too large is let pass, and fails when it is rendered. -/
theorem clean_not_read :
    let isVerb := Registry.core.contains
    let text := "\x7b\x7b give_gold 9223372036854775808 \x7d\x7d"
    Clean (template isVerb text) ∧ outputs (parse text) = ["give_gold 9223372036854775808"] ∧
      ¬ CallReads isVerb "give_gold 9223372036854775808" ∧
      (((Registry.core.env ∅).render text).run ⟨[∅], ⟨{}, ⟨7⟩⟩⟩).1 =
        errorText ParseError.largeNumber.message := by
  intro isVerb text
  have hclean : Clean (template isVerb text) := by
    unfold Clean
    decide +kernel
  have hcall : Shorthand.call? isVerb "give_gold 9223372036854775808" =
      some "give_gold(9223372036854775808)" := by
    decide +kernel
  have hparse : (Expr.parse? "give_gold(9223372036854775808)").isSome = false := by decide +kernel
  refine ⟨hclean, by decide +kernel, fun hreads => ?_, by decide +kernel⟩
  exact Bool.false_ne_true (hparse.symm.trans (hreads _ hcall))

end Lint

end Narrative
