import Narrative.Proofs.Expr.Complete
import Narrative.Proofs.Expr.Derived
import Narrative.Proofs.Expr.Syntactic
import Narrative.Proofs.Expr.Unambiguous

/-! The parser is the grammar: it gives the meaning of the one legal derivation of a text's tokens,
and an error of syntax if there is none. -/

namespace Narrative

open Narrative.Parser

namespace Derivation

theorem tokens_ne_nil (d : Derivation .expr) : d.tokens ≠ [] := by
  obtain ⟨t, us, h, _⟩ := d.headed
  rw [h]
  exact List.cons_ne_nil t us

theorem eq_of_tokens_eq {d d' : Derivation .expr} (h : d.tokens = d'.tokens) : d = d' :=
  (d.unambiguous d' [] [] .nil .nil (by rw [h])).1

end Derivation

namespace Expr

variable {ts : List Token}

theorem ofTokens_ok {e : Expr} : ofTokens ts = .ok e ↔ ts ≠ [] ∧ Reads (expr ts) e [] := by
  unfold ofTokens
  split
  · simp
  · next hne =>
    constructor
    · intro h
      obtain ⟨⟨v, rest, hr⟩, he, h⟩ := bind_eq_ok.mp h
      dsimp only at h
      split at h
      · cases h
        exact ⟨hne, hr, he⟩
      · cases h
    · rintro ⟨_, hr, he⟩
      exact bind_eq_ok.mpr ⟨_, he, rfl⟩

theorem ofTokens_derivation {e : Expr} :
    ofTokens ts = .ok e ↔ ∃ d : Derivation .expr, d.Legal ∧ d.tokens = ts ∧ d.value = e := by
  rw [ofTokens_ok]
  constructor
  · rintro ⟨_, h⟩
    obtain ⟨d, hl, ht, hv⟩ := expr_derived h
    exact ⟨d, hl, by rwa [List.append_nil] at ht, hv⟩
  · rintro ⟨d, hl, rfl, rfl⟩
    have h := d.isRead hl [] .nil
    rw [List.append_nil] at h
    exact ⟨d.tokens_ne_nil, h⟩

theorem ofTokens_syntactic (ts : List Token) : Syntactic (ofTokens ts) := by
  unfold ofTokens
  split
  · exact .error (by simp [ParseError.IsSyntax])
  · refine .bind (expr_syntactic _) fun e => ?_
    split
    · exact .ok
    · exact .error (by simp [ParseError.IsSyntax])

theorem parse_eq_ofTokens {s : String} (h : Token.lex s.toList = .ok ts) :
    parse s = ofTokens ts := by
  rw [parse, h]
  rfl

theorem parse_grammar {s : String} (h : Token.lex s.toList = .ok ts) :
    (∀ e, parse s = .ok e ↔ ∃ d : Derivation .expr, d.Legal ∧ d.tokens = ts ∧ d.value = e) ∧
      (∀ d d' : Derivation .expr, d.tokens = ts → d'.tokens = ts → d = d') ∧
      ((¬ ∃ d : Derivation .expr, d.Legal ∧ d.tokens = ts) →
        ∃ e, parse s = .error e ∧ e.IsSyntax) := by
  rw [parse_eq_ofTokens h]
  refine ⟨fun e => ofTokens_derivation, ?_, ?_⟩
  · rintro d d' rfl ht
    exact Derivation.eq_of_tokens_eq ht.symm
  · intro hn
    cases ho : ofTokens ts with
    | error e => exact ⟨e, rfl, ofTokens_syntactic ts e ho⟩
    | ok e =>
      obtain ⟨d, hl, ht, _⟩ := ofTokens_derivation.mp ho
      exact absurd ⟨d, hl, ht⟩ hn

theorem parse_grammar_sign :
    Token.lex "-1".toList = .ok [.symbol .minus, .int 1] ∧ parse "-1" = .ok (.lit (.int (-1))) := by
  have h : Token.lex "-1".toList = .ok [.symbol .minus, .int 1] := by with_unfolding_all rfl
  let d : Derivation .unary := .neg (.trailed (.int 1) .bare)
  exact ⟨h, ((parse_grammar h).1 _).mpr
    ⟨d.ofUnary, by simp [d, Derivation.Legal], by simp [d, Derivation.tokens], rfl⟩⟩

end Expr

end Narrative
