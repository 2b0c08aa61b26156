import Narrative.Proofs.Expr.Parse
import Mathlib.Data.List.Chain

/-! Operands in expressions. No two of them stand side by side, so words that are operands each are
no expression together. -/

namespace Narrative

def Token.isOperand : Token → Bool
  | .int _ | .float _ | .text _ => true
  | .word s => !isKeyword s || (literalWord? s).isSome
  | .symbol _ => false

/-- No two operands stand side by side. -/
def Apart (ts : List Token) : Prop :=
  ts.IsChain fun t u => ¬ (t.isOperand = true ∧ u.isOperand = true)

namespace Apart

variable {t : Token} {ts us : List Token}

theorem singleton (t : Token) : Apart [t] :=
  List.IsChain.singleton t

theorem append (hts : Apart ts) (hus : Apart us)
    (h : ∀ u, us.head? = some u → u.isOperand = false) : Apart (ts ++ us) := by
  refine List.IsChain.append hts hus fun _ _ u hu hboth => ?_
  rw [h u hu] at hboth
  exact Bool.false_ne_true hboth.2

theorem cons (ht : t.isOperand = false) (hts : Apart ts) : Apart (t :: ts) := by
  refine List.isChain_cons.mpr ⟨fun u _ hboth => ?_, hts⟩
  rw [ht] at hboth
  exact Bool.false_ne_true hboth.1

theorem between (hts : Apart ts) (ht : t.isOperand = false) (hus : Apart us) :
    Apart (ts ++ t :: us) :=
  hts.append (hus.cons ht) fun _ hu => Option.some.inj hu ▸ ht

theorem not_cons_cons {u : Token} (ht : t.isOperand = true) (hu : u.isOperand = true) :
    ¬ Apart (t :: u :: ts) :=
  fun h => (List.isChain_cons_cons.mp h).1 ⟨ht, hu⟩

end Apart

theorem BinaryOp.isOperand_tokens (op : BinaryOp) : ∀ t ∈ op.tokens, t.isOperand = false := by
  cases op <;> decide

namespace Derivation

/-- What follows a phrase inside a larger one begins with no operand. -/
def Continues : {p : Phrase} → Derivation p → Prop
  | .more _, d | .trail, d | .others, d => ∀ t, d.tokens.head? = some t → t.isOperand = false
  | _, _ => True

theorem continues {p : Phrase} (d : Derivation p) : d.Continues := by
  cases d with
  | step op h right more =>
    intro t ht
    refine op.isOperand_tokens t ?_
    cases op <;> exact List.mem_of_mem_head? ht
  | stop | bare => exact fun t ht => by cases ht
  | attr | item | key | call | next => exact fun t ht => Option.some.inj ht ▸ rfl
  | done comma => cases comma <;> exact fun t ht => by cases ht <;> rfl
  | _ => trivial

/-- The tokens of every phrase are apart: what joins two phrases is an operator, a bracket or a
comma. -/
theorem apart {p : Phrase} (d : Derivation p) : Apart d.tokens := by
  induction d with
  | plain body ih | tighter h body ih | negated body ih | signed body ih | compare body ih =>
    exact ih
  | when body test ihb iht => exact ihb.between rfl iht
  | choose body test otherwise ihb iht iho => exact ihb.between rfl (iht.between rfl iho)
  | chain first more ihf ihm => exact ihf.append ihm more.continues
  | stop | bare | empty => exact .nil
  | step op h right more ihr ihm =>
    have hright := ihr.append ihm more.continues
    have htokens := op.isOperand_tokens
    rw [tokens]
    generalize op.tokens = ts at htokens
    induction ts with
    | nil => exact hright
    | cons t ts ih =>
      exact (ih fun u hu => htokens u (List.mem_cons_of_mem t hu)).cons
        (htokens t List.mem_cons_self)
  | not d ih | neg d ih => exact ih.cons rfl
  | trailed target trail iht ihr => exact iht.append ihr trail.continues
  | attr s trail ih => exact ((Apart.singleton _).append ih trail.continues).cons rfl
  | item n trail ih => exact ((Apart.singleton _).append ih trail.continues).cons rfl
  | key d trail ihd iht => exact (ihd.between rfl iht).cons rfl
  | call args trail iha iht => exact (iha.between rfl iht).cons rfl
  | int | float | text | constant | var => exact .singleton _
  | group d ih => exact (ih.between rfl .nil).cons rfl
  | list items ih => exact (ih.between rfl .nil).cons rfl
  | listed first others ihf iho => exact ihf.append iho others.continues
  | done comma =>
    cases comma with
    | false => exact .nil
    | true => exact .singleton _
  | next d others ihd iho => exact (ihd.append iho others.continues).cons rfl

end Derivation

theorem Expr.apart_of_ofTokens {ts : List Token} {e : Expr} (h : Expr.ofTokens ts = .ok e) :
    Apart ts := by
  obtain ⟨d, -, rfl, -⟩ := Expr.ofTokens_derivation.mp h
  exact d.apart

end Narrative
