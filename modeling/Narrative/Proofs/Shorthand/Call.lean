import Narrative.Proofs.Expr.Parse
import Narrative.Proofs.Shorthand.Reading
import Mathlib.Data.List.Forall2

/-! Shorthand rewritten to a call means what was written: the call of its first word on the values
which the other words denote. -/

namespace Narrative.Shorthand

open Token

theorem toList_joinWith_cons (mark s : String) (rest : List String) :
    (joinWith mark (s :: rest)).toList = s.toList ++ rest.flatMap fun t =>
      mark.toList ++ t.toList := by
  induction rest generalizing s with
  | nil => simp [joinWith]
  | cons t rest ih =>
    rw [joinWith, String.toList_append, String.toList_append, ih, List.flatMap_cons,
      List.append_assoc, List.append_assoc]
    simp

def DenoteAll (ws : List String) (vs : List Value) : Prop :=
  List.Forall₂ (fun w v => Denotes w.toList v) ws vs

def furtherText (ws : List String) : List Char :=
  ws.flatMap fun w => ", ".toList ++ (literal w).toList

theorem lex_further_cons (w : String) (ws : List String) (rest : List Char) :
    lex (furtherText (w :: ws) ++ rest) =
      ahead [.symbol .comma] (lex ((literal w).toList ++ (furtherText ws ++ rest))) := by
  have hsplit : furtherText (w :: ws) = ',' :: ' ' :: ((literal w).toList ++ furtherText ws) := rfl
  rw [hsplit, List.cons_append, List.cons_append, List.append_assoc, lex_comma,
    lex_blank (by decide)]

def commaText (comma : Bool) : List Char :=
  if comma then [','] else []

theorem endsArgument_further (ws : List String) (comma : Bool) (rest : List Char) :
    EndsArgument (furtherText ws ++ (commaText comma ++ ')' :: rest)) := by
  cases ws with
  | nil => cases comma <;> constructor
  | cons w ws => exact .comma _

theorem lex_further {ws : List String} {vs : List Value} (h : DenoteAll ws vs) (comma : Bool) :
    ∃ d : Derivation .others, d.Legal ∧ d.value = vs.map .lit ∧ ∀ rest,
      lex (furtherText ws ++ (commaText comma ++ ')' :: rest)) =
        ahead d.tokens (lex (')' :: rest)) := by
  induction h with
  | nil =>
    refine ⟨.done comma, trivial, rfl, fun rest => ?_⟩
    cases comma with
    | false => exact ahead_nil.symm
    | true => exact lex_comma
  | @cons w v ws vs hw _ ih =>
    obtain ⟨others, ho, hov, hol⟩ := ih
    obtain ⟨d, hd, hdv, hdl⟩ := Denotes.reads hw
    refine ⟨.next d.ofUnary others, And.intro (d.legal_ofUnary.mpr hd) ho, ?_, fun rest => ?_⟩
    · rw [Derivation.value, d.value_ofUnary, hdv, hov]
      rfl
    · rw [lex_further_cons, hdl _ (endsArgument_further ws comma rest), hol, ahead_ahead,
        ahead_ahead, Derivation.tokens, d.tokens_ofUnary]
      rfl

def argumentText (ws : List String) : List Char :=
  (joinWith ", " (ws.map literal)).toList

theorem argumentText_cons (w : String) (ws : List String) :
    argumentText (w :: ws) = (literal w).toList ++ furtherText ws := by
  rw [argumentText, List.map_cons, toList_joinWith_cons, furtherText, List.flatMap_map]

theorem lex_arguments {ws : List String} {vs : List Value} (h : DenoteAll ws vs) {comma : Bool}
    (hne : comma = true → ws ≠ []) :
    ∃ d : Derivation .args, d.Legal ∧ d.value = vs.map .lit ∧ ∀ rest,
      lex (argumentText ws ++ (commaText comma ++ ')' :: rest)) =
        ahead d.tokens (lex (')' :: rest)) := by
  cases h with
  | nil =>
    cases comma with
    | false => exact ⟨.empty, trivial, rfl, fun rest => ahead_nil.symm⟩
    | true => exact absurd rfl (hne rfl)
  | @cons w v ws vs hw hws =>
    obtain ⟨others, ho, hov, hol⟩ := lex_further hws comma
    obtain ⟨d, hd, hdv, hdl⟩ := Denotes.reads hw
    refine ⟨.listed d.ofUnary others, And.intro (d.legal_ofUnary.mpr hd) ho, ?_, fun rest => ?_⟩
    · rw [Derivation.value, d.value_ofUnary, hdv, hov]
      rfl
    · rw [argumentText_cons, List.append_assoc, hdl _ (endsArgument_further ws comma rest), hol,
        ahead_ahead, Derivation.tokens, d.tokens_ofUnary]

theorem not_mem_keywords {s : String} (h : isName s = true) : s ∉ keywords := by
  simp only [isName, isKeyword, Bool.and_eq_true, Bool.not_eq_true', List.contains_eq_mem,
    decide_eq_false_iff_not] at h
  exact h.2

theorem lex_head {head : String} (h : isName head = true) (cs : List Char) :
    lex (head.toList ++ '(' :: cs) = ahead [.word head, .symbol .lparen] (lex cs) := by
  rw [lex_name (Bool.and_eq_true_iff.mp h).1 (EndsToken.cons (by decide) cs).not_name, lex_lparen,
    ahead_ahead]
  rfl

/-- The text of a call on words, a comma after the last if `comma`. -/
def callText (head : String) (ws : List String) (comma : Bool) : List Char :=
  head.toList ++ '(' :: (argumentText ws ++ (commaText comma ++ [')']))

theorem parse_callText {head s : String} {ws : List String} {vs : List Value} {comma : Bool}
    (hname : isName head = true) (hws : DenoteAll ws vs) (hne : comma = true → ws ≠ [])
    (hs : s.toList = callText head ws comma) : Expr.parse s = .ok (.call head (vs.map .lit)) := by
  obtain ⟨args, ha, hav, hal⟩ := lex_arguments hws hne
  let d : Derivation .unary := .trailed (.var head (not_mem_keywords hname)) (.call args .bare)
  have ht : d.tokens = .word head :: .symbol .lparen :: (args.tokens ++ [.symbol .rparen]) := by
    simp [d, Derivation.tokens]
  have hlex : lex s.toList = .ok d.tokens := by
    rw [hs, callText, lex_head hname, hal, lex_rparen, lex_nil, ahead_ok, ahead_ok, ahead_ok, ht]
    rfl
  have hv : d.value = .call head (vs.map .lit) := by rw [← hav]; rfl
  have hl : d.Legal := And.intro trivial ⟨head, rfl, ha, trivial⟩
  rw [Expr.parse_eq_ofTokens hlex]
  exact Expr.ofTokens_derivation.mpr ⟨d.ofUnary, d.legal_ofUnary.mpr hl, d.tokens_ofUnary, hv⟩

theorem call?_eq_some {isVerb : String → Bool} {content head : String} {ws : List String}
    (hwords : words content = head :: ws) (hverb : isVerb head = true)
    (hopen : ∀ w, ws.head? = some w → w.toList.head? ≠ some '(') :
    ∃ s, call? isVerb content = some s ∧ s.toList = callText head ws false := by
  refine ⟨head ++ "(" ++ joinWith ", " (ws.map literal) ++ ")", ?_, ?_⟩
  · have hp : (ws.head?.any fun w => w.toList.head? = some '(') = false := by
      cases ws with
      | nil => rfl
      | cons w ws => simpa using hopen w rfl
    simp only [call?, hwords, hverb, hp]
    rfl
  · simp [callText, argumentText, commaText]

theorem exists_denoteAll {ws : List String}
    (hquoted : ∀ w ∈ ws, StartsQuoted w.toList → ∃ s, Quoted w.toList s)
    (hfit : ∀ w ∈ ws, ∀ negative ds, Digits ds → w.toList = signed negative ds →
      (Nat.ofDigitChars 10 ds 0 : Int) ≤ greatestWord) : ∃ vs, DenoteAll ws vs := by
  induction ws with
  | nil => exact ⟨[], .nil⟩
  | cons w ws ih =>
    obtain ⟨vs, hvs⟩ :=
      ih (fun u hu => hquoted u (by simp [hu])) (fun u hu => hfit u (by simp [hu]))
    obtain ⟨v, hv⟩ := exists_denotes (hquoted w (by simp)) (hfit w (by simp))
    exact ⟨v :: vs, .cons hv hvs⟩

theorem call?_denotes {isVerb : String → Bool} {content head : String} {ws : List String}
    (hwords : words content = head :: ws) (hname : isName head = true) (hverb : isVerb head = true)
    (hopen : ∀ w, ws.head? = some w → w.toList.head? ≠ some '(')
    (hquoted : ∀ w ∈ ws, StartsQuoted w.toList → ∃ s, Quoted w.toList s)
    (hfit : ∀ w ∈ ws, ∀ negative ds, Digits ds → w.toList = signed negative ds →
      (Nat.ofDigitChars 10 ds 0 : Int) ≤ greatestWord) :
    ∃ s vs, call? isVerb content = some s ∧ Expr.parse s = .ok (.call head (vs.map .lit)) ∧
      List.Forall₂ (fun w v => Denotes w.toList v) ws vs := by
  obtain ⟨vs, hvs⟩ := exists_denoteAll hquoted hfit
  obtain ⟨s, hs, htext⟩ := call?_eq_some hwords hverb hopen
  exact ⟨s, vs, hs, parse_callText hname hvs (by simp) htext, hvs⟩

theorem call?_denotes_gift :
    words "give -5 o'hare" = ["give", "-5", "o'hare"] ∧
      ∃ s vs, call? (fun _ => true) "give -5 o'hare" = some s ∧
        Expr.parse s = .ok (.call "give" (vs.map .lit)) ∧
        List.Forall₂ (fun w v => Denotes w.toList v) ["-5", "o'hare"] vs := by
  have hw : words "give -5 o'hare" = ["give", "-5", "o'hare"] := by decide +kernel
  refine ⟨hw, call?_denotes hw (by decide) rfl (by simp) ?_ ?_⟩
  · simp [StartsQuoted, isQuote]
  · intro w hw negative ds hd he
    rcases List.mem_pair.mp hw with rfl | rfl <;> cases negative
    · obtain rfl : ds = "-5".toList := he.symm
      exact absurd rfl (hd.head?_ne (c := '-') (by decide))
    · obtain rfl : ds = ['5'] := (List.cons.inj he).2.symm
      decide
    · obtain rfl : ds = "o'hare".toList := he.symm
      exact absurd rfl (hd.head?_ne (c := 'o') (by decide))
    · cases he

end Narrative.Shorthand
