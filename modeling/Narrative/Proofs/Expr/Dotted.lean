import Narrative.Proofs.Expr.Parse
import Narrative.Proofs.Shorthand.Call
import Mathlib.Data.List.Chain

/-! Paths of attributes and places after a name. The text of a path is read as it is written up to
the first place that another place follows: there the two are one number with a fraction. -/

namespace Narrative

open Token

namespace Parser

variable {ts : List Token} {err : ParseError}

theorem chain_error {l : Level} (h : operand l ts = .error err) : chain l ts = .error err := by
  rw [chain, h]
  rfl

theorem unary_error {x : String} (hx : x ∉ keywords) (h : trail (.var x) ts = .error err) :
    unary (.word x :: ts) = .error err := by
  have hname : PrimaryReads (.word x :: ts) (.var x) ts :=
    .name (literalWord?_eq_none hx) (by simpa [isKeyword] using hx)
  obtain ⟨_, hprimary⟩ := primary_reads.mpr hname
  rw [unary, hprimary]
  · change (trail (.var x) ts >>= _) = _
    rw [h]
    rfl
  · simp

theorem expr_error {t : Token} (ht : t ≠ .word "not") (h : unary (t :: ts) = .error err) :
    expr (t :: ts) = .error err := by
  have hproduct : operand .product (t :: ts) = .error err := by rwa [operand]
  have hsum : operand .sum (t :: ts) = .error err := by rw [operand, chain_error hproduct]
  have hconcat : operand .concat (t :: ts) = .error err := by rw [operand, chain_error hsum]
  have hcompare : operand .compare (t :: ts) = .error err := by rw [operand, chain_error hconcat]
  have hand : operand .and (t :: ts) = .error err := by
    rw [operand, negation, if_neg ht, chain_error hcompare]
  have hor : operand .or (t :: ts) = .error err := by rw [operand, chain_error hand]
  rw [expr, chain_error hor]
  rfl

end Parser

namespace Dotted

/-- A step of a path: an attribute, or a place that is given by its digits. -/
inductive Step where
  | field (name : String) (h : isIdentifier name = true)
  | place (digits : List Char) (n : Int64) (hd : Digits digits)
      (hn : int64? (Nat.ofDigitChars 10 digits 0) = some n)

namespace Step

def IsPlace : Step → Prop
  | .field .. => False
  | .place .. => True

instance : DecidablePred IsPlace
  | .field .. => inferInstanceAs (Decidable False)
  | .place .. => inferInstanceAs (Decidable True)

def word : Step → List Char
  | .field name _ => name.toList
  | .place digits .. => digits

def token : Step → Token
  | .field name _ => .word name
  | .place _ n .. => .int n

def on (e : Expr) : Step → Expr
  | .field name _ => .attr e name
  | .place _ n .. => .index e (.lit (.int n))

end Step

def text (steps : List Step) : List Char :=
  steps.flatMap fun s => '.' :: s.word

def Apart (steps : List Step) : Prop :=
  steps.IsChain fun s t => ¬ (s.IsPlace ∧ t.IsPlace)

instance (steps : List Step) : Decidable (Apart steps) :=
  inferInstanceAs (Decidable (steps.IsChain _))

def trail : List Step → Derivation .trail
  | [] => .bare
  | .field name _ :: steps => .attr name (trail steps)
  | .place _ n .. :: steps => .item n (trail steps)

variable {s t : Step} {steps : List Step}

theorem tokens_trail_cons :
    (trail (s :: steps)).tokens = .symbol .dot :: s.token :: (trail steps).tokens := by
  cases s <;> rfl

theorem value_trail (e : Expr) : (trail steps).value e = steps.foldl Step.on e := by
  induction steps generalizing e with
  | nil => rfl
  | cons s steps ih => cases s <;> exact ih _

theorem legal_trail (e : Expr) : (trail steps).Legal e := by
  induction steps generalizing e with
  | nil => trivial
  | cons s steps ih => cases s <;> exact ih _

theorem head?_text {c : Char} (h : (text steps).head? = some c) : c = '.' := by
  cases steps with
  | nil => cases h
  | cons s steps =>
    cases h
    rfl

theorem fraction?_field {name : String} (h : isIdentifier name = true) :
    fraction? (text (.field name h :: steps)) = none := by
  change fraction? ('.' :: (name.toList ++ text steps)) = none
  unfold isIdentifier at h
  split at h
  · cases h
  · next c cs hcs =>
    have hc : c.isDigit = false := not_isDigit_of_startsName (Bool.and_eq_true_iff.mp h).1
    rw [hcs, List.cons_append, fraction?, hc]
    rfl

theorem not_isDigit_head?_text : ∀ c, (text steps).head? = some c → c.isDigit = false := by
  intro c hc
  rw [head?_text hc]
  decide

/-- A word that ends before a step or the end of the text is read as it is, but for a place before a
place. -/
theorem lex_step (h : ∀ t, steps.head? = some t → ¬ (s.IsPlace ∧ t.IsPlace)) :
    lex (text (s :: steps)) = ahead [.symbol .dot, s.token] (lex (text steps)) := by
  have hword : lex (s.word ++ text steps) = ahead [s.token] (lex (text steps)) := by
    cases s with
    | field name hname =>
      refine lex_name hname fun c hc => ?_
      rw [head?_text hc]
      decide
    | place digits n hd hn =>
      refine lex_whole hd not_isDigit_head?_text ?_ hn
      cases steps with
      | nil => rfl
      | cons t steps =>
        cases t with
        | place => exact absurd ⟨trivial, trivial⟩ (h _ rfl)
        | field name hname => exact fraction?_field hname
  change lex ('.' :: (s.word ++ text steps)) = _
  rw [lex_dot, hword, ahead_ahead]
  rfl

theorem lex_places (hs : s.IsPlace) (ht : t.IsPlace) (steps : List Step) :
    ∃ x, lex (text (s :: t :: steps)) = ahead [.symbol .dot, .float x] (lex (text steps)) := by
  cases s with
  | field => cases hs
  | place whole _ hw _ =>
    cases t with
    | field => cases ht
    | place frac _ hf _ =>
      refine ⟨readFloat whole frac 0, ?_⟩
      have hnumber : lex (whole ++ '.' :: frac ++ text steps) =
          ahead [.float (readFloat whole frac 0)] (lex (text steps)) :=
        lex_decimal hw hf not_isDigit_head?_text
      change lex ('.' :: (whole ++ '.' :: (frac ++ text steps))) = _
      rw [List.append_assoc, List.cons_append] at hnumber
      rw [lex_dot, hnumber, ahead_ahead]
      rfl

-- Two places are one token, so the recursion goes two steps down there.
theorem lex_text (steps : List Step) : ∃ ts, lex (text steps) = .ok ts :=
  match steps with
  | [] => ⟨[], lex_nil⟩
  | [s] => ⟨_, (lex_step (by simp)).trans (congrArg _ lex_nil)⟩
  | s :: t :: steps => by
    by_cases h : s.IsPlace ∧ t.IsPlace
    · obtain ⟨x, hx⟩ := lex_places h.1 h.2 steps
      obtain ⟨ts, hts⟩ := lex_text steps
      exact ⟨_, hx.trans (congrArg _ hts)⟩
    · obtain ⟨ts, hts⟩ := lex_text (t :: steps)
      have hs : lex (text (s :: t :: steps)) = _ := lex_step (by simpa using h)
      exact ⟨_, hs.trans (congrArg _ hts)⟩

theorem lex_apart (h : Apart steps) : lex (text steps) = .ok (trail steps).tokens := by
  induction steps with
  | nil => exact lex_nil
  | cons s steps ih =>
    obtain ⟨hs, hsteps⟩ := List.isChain_cons.mp h
    rw [lex_step hs, ih hsteps, tokens_trail_cons]
    rfl

/-- The steps up to the first place before a place are read, and then comes a number that is no
step. -/
theorem lex_not_apart (h : ¬ Apart steps) :
    ∃ ts, lex (text steps) = .ok ts ∧ ∀ e, Parser.trail e ts = .error .expectedName := by
  induction steps with
  | nil => exact absurd .nil h
  | cons s steps ih =>
    cases steps with
    | nil => exact absurd (.singleton s) h
    | cons t steps =>
      by_cases hp : s.IsPlace ∧ t.IsPlace
      · obtain ⟨x, hx⟩ := lex_places hp.1 hp.2 steps
        obtain ⟨ts, hts⟩ := lex_text steps
        refine ⟨.symbol .dot :: .float x :: ts, hx.trans (congrArg _ hts), fun e => ?_⟩
        rw [Parser.trail]
        rfl
      · obtain ⟨ts, hts, herr⟩ := ih fun ht => h (List.isChain_cons_cons.mpr ⟨hp, ht⟩)
        have hs : lex (text (s :: t :: steps)) = _ := lex_step (by simpa using hp)
        refine ⟨.symbol .dot :: s.token :: ts, hs.trans (congrArg _ hts), fun e => ?_⟩
        have hmember : s.token.member? e = some (s.on e) := by cases s <;> rfl
        rw [Parser.trail, hmember]
        dsimp only
        rw [herr]
        rfl

def source (x : String) (steps : List Step) : String :=
  String.ofList (x.toList ++ text steps)

theorem lex_source {x : String} (hx : isName x = true) :
    lex (source x steps).toList = ahead [.word x] (lex (text steps)) := by
  rw [source, String.toList_ofList]
  refine lex_name (Bool.and_eq_true_iff.mp hx).1 fun c hc => ?_
  rw [head?_text hc]
  decide

theorem parse_apart {x : String} (hx : isName x = true) (h : Apart steps) :
    Expr.parse (source x steps) = .ok (steps.foldl Step.on (.var x)) := by
  let d : Derivation .unary := .trailed (.var x (Shorthand.not_mem_keywords hx)) (trail steps)
  have htokens : lex (source x steps).toList = .ok d.tokens := by
    rw [lex_source hx, lex_apart h]
    rfl
  have hlegal : d.Legal := And.intro (by simp only [Derivation.Legal]) (legal_trail _)
  rw [Expr.parse_eq_ofTokens htokens]
  exact Expr.ofTokens_derivation.mpr
    ⟨d.ofUnary, d.legal_ofUnary.mpr hlegal, d.tokens_ofUnary, d.value_ofUnary.trans (value_trail _)⟩

theorem parse_not_apart {x : String} (hx : isName x = true) (h : ¬ Apart steps) :
    Expr.parse (source x steps) = .error .expectedName := by
  have hkey : x ∉ keywords := Shorthand.not_mem_keywords hx
  obtain ⟨ts, hts, herr⟩ := lex_not_apart h
  have htokens : lex (source x steps).toList = .ok (.word x :: ts) := by
    rw [lex_source hx, hts]
    rfl
  have hnot : Token.word x ≠ .word "not" := by
    rintro ⟨⟩
    exact hkey (by decide)
  rw [Expr.parse_eq_ofTokens htokens, Expr.ofTokens,
    Parser.expr_error hnot (Parser.unary_error hkey (herr _))]
  · rfl
  · simp

/-- A path after a name is the tree of its steps in their order, if no place is followed by a place.
If one is, the text is no expression. -/
theorem parse_source {x : String} (hx : isName x = true) (steps : List Step) :
    (Apart steps → Expr.parse (source x steps) = .ok (steps.foldl Step.on (.var x))) ∧
      (¬ Apart steps → Expr.parse (source x steps) = .error .expectedName) :=
  ⟨parse_apart hx, parse_not_apart hx⟩

theorem parse_source_mixed :
    Expr.parse "party.0.name.007" =
      .ok (.index (.attr (.index (.var "party") (.lit (.int 0))) "name") (.lit (.int 7))) :=
  (parse_source (x := "party") (by decide)
    [.place ['0'] 0 (by simp [Digits]) (by decide), .field "name" (by decide),
      .place ['0', '0', '7'] 7 (by simp [Digits]) (by decide)]).1 (by decide)

/-- A place of a place is no expression, though there is a tree for it. -/
theorem parse_places :
    let steps : List Step :=
      [.place ['0'] 0 (by simp [Digits]) (by decide), .place ['1'] 1 (by simp [Digits]) (by decide)]
    source "xs" steps = "xs.0.1" ∧ Expr.parse (source "xs" steps) = .error .expectedName ∧
      Expr.parse (source "xs" steps) ≠ .ok (steps.foldl Step.on (.var "xs")) := by
  intro steps
  have herr : Expr.parse (source "xs" steps) = .error .expectedName :=
    parse_not_apart (by decide) (by decide)
  refine ⟨by decide, herr, ?_⟩
  rw [herr]
  nofun

end Dotted

end Narrative
