import Narrative.Proofs.Expr.Grammar
import Narrative.Proofs.Expr.Reads

/-! Which tokens a phrase begins with and which may follow it, so that one token tells where it
ends. Phrases are ordered by looseness, from a primary tree to a whole expression. -/

namespace Narrative

open Narrative.Parser

theorem BinaryOp.operator?_tokens (op : BinaryOp) (l : Level) (ts : List Token) :
    l.operator? (op.tokens ++ ts) = if op.level = l then some (op, ts) else none := by
  cases op <;> cases l <;> rfl

theorem Parser.Level.operator?_some {l : Level} {op : BinaryOp} {ts rest : List Token}
    (h : l.operator? ts = some (op, rest)) : op.level = l ∧ ts = op.tokens ++ rest := by
  unfold Level.operator? at h
  split at h <;> cases h <;> exact ⟨rfl, rfl⟩

def Symbol.Closes (s : Symbol) : Prop :=
  s = .rparen ∨ s = .rbracket

theorem Symbol.Closes.ne_comma {s : Symbol} (h : s.Closes) : s ≠ .comma := by
  rcases h with rfl | rfl <;> decide

/-- No phrase as loose as `n` goes on with the tokens. -/
structure Ends (n : Nat) (ts : List Token) : Prop where
  trail : 1 ≤ n → opensTrail ts = false
  operator : ∀ l : Level, l.rank ≤ n → l.operator? ts = none
  test : 9 ≤ n → ts.head? ≠ some (.word "if") ∧ ts.head? ≠ some (.word "else")

namespace Ends

variable {m n : Nat} {ts : List Token}

theorem mono (hmn : m ≤ n) (h : Ends n ts) : Ends m ts :=
  ⟨fun hm => h.trail (Nat.le_trans hm hmn), fun l hl => h.operator l (Nat.le_trans hl hmn),
    fun hm => h.test (Nat.le_trans hm hmn)⟩

theorem zero : Ends 0 ts :=
  ⟨fun h => by omega, fun l hl => by cases l <;> simp at hl, fun h => by omega⟩

theorem nil : Ends n [] :=
  ⟨fun _ => rfl, fun l _ => by cases l <;> rfl, fun _ => by simp⟩

theorem close {s : Symbol} (h : s.Closes) : Ends n (.symbol s :: ts) := by
  rcases h with rfl | rfl <;>
    exact ⟨fun _ => rfl, fun l _ => by cases l <;> rfl, fun _ => by simp⟩

theorem comma : Ends n (.symbol .comma :: ts) :=
  ⟨fun _ => rfl, fun l _ => by cases l <;> rfl, fun _ => by simp⟩

theorem when : Ends 8 (.word "if" :: ts) :=
  ⟨fun _ => rfl, fun l _ => by cases l <;> rfl, fun h => by omega⟩

theorem otherwise : Ends 8 (.word "else" :: ts) :=
  ⟨fun _ => rfl, fun l _ => by cases l <;> rfl, fun h => by omega⟩

theorem operation (op : BinaryOp) : Ends (op.level.rank - 1) (op.tokens ++ ts) := by
  refine ⟨fun _ => by cases op <;> rfl, fun l hl => ?_, fun h => ?_⟩
  · rw [op.operator?_tokens, if_neg]
    rintro rfl
    cases hl' : op.level <;> simp [hl'] at hl
  · have := op.level.rank_le
    omega

end Ends

/-- A phrase as loose as `n` can begin with the token. -/
structure Begins (n : Nat) (t : Token) : Prop where
  close : ∀ s : Symbol, s.Closes → t ≠ .symbol s
  minus : n < 1 → t ≠ .symbol .minus
  not : n < 6 → t ≠ .word "not"

/-- The tokens begin as a phrase as loose as `n` can. -/
def Heads (n : Nat) (ts : List Token) : Prop :=
  ∃ t us, ts = t :: us ∧ Begins n t

namespace Heads

variable {m n : Nat} {ts us : List Token}

theorem mono (hmn : m ≤ n) (h : Heads m ts) : Heads n ts := by
  obtain ⟨t, us, rfl, hb⟩ := h
  exact ⟨t, us, rfl, hb.close, fun hn => hb.minus (by omega), fun hn => hb.not (by omega)⟩

theorem append (h : Heads n ts) : Heads n (ts ++ us) := by
  obtain ⟨t, vs, rfl, hb⟩ := h
  exact ⟨t, vs ++ us, rfl, hb⟩

theorem not_close {s : Symbol} (hs : s.Closes) (h : Heads n ts) : ts ≠ .symbol s :: us := by
  obtain ⟨t, vs, rfl, hb⟩ := h
  exact fun he => hb.close s hs (List.cons.inj he).1

theorem not_minus (hn : n < 1) (h : Heads n ts) : ts ≠ .symbol .minus :: us := by
  obtain ⟨t, vs, rfl, hb⟩ := h
  exact fun he => hb.minus hn (List.cons.inj he).1

theorem not_not (hn : n < 6) (h : Heads n ts) : ts ≠ .word "not" :: us := by
  obtain ⟨t, vs, rfl, hb⟩ := h
  exact fun he => hb.not hn (List.cons.inj he).1

end Heads

namespace Phrase

def looseness : Phrase → Nat
  | .expr => 9
  | .chain l | .more l => l.rank
  | .operand l => l.rank - 1
  | .negation => 6
  | .unary | .trail => 1
  | .primary | .args | .others => 0

def Follow : Phrase → List Token → Prop
  | .args, ts | .others, ts => ∃ s us, s.Closes ∧ ts = .symbol s :: us
  | p, ts => Ends p.looseness ts

/-- Phrases that stand for some tokens begin as their looseness allows. -/
def Headed : Phrase → List Token → Prop
  | .more _, _ | .trail, _ | .args, _ | .others, _ => True
  | p, ts => Heads p.looseness ts

end Phrase

theorem Parser.Level.tighter?_rank {l l' : Level} (h : l.tighter? = some l') :
    l'.rank = l.rank - 1 := by
  cases l <;> cases h <;> rfl

namespace Derivation

theorem headed {p : Phrase} (d : Derivation p) : p.Headed d.tokens := by
  induction d with
  | plain body ih => exact ih.mono (by decide)
  | when body test ih | choose body test otherwise ih => exact ih.append.mono (by decide)
  | chain first more ih => exact ih.append.mono (Nat.sub_le _ _)
  | tighter h d ih => exact ih.mono (Nat.le_of_eq (Level.tighter?_rank h))
  | negated d ih | signed d ih => exact ih
  | not d ih => exact ⟨_, _, rfl, by simp, fun h => by contradiction, fun h => by contradiction⟩
  | compare d ih => exact ih.mono (by decide)
  | neg d ih =>
    exact ⟨_, _, rfl, by simp [Symbol.Closes], fun h => by contradiction, by simp⟩
  | trailed target trail ih => exact ih.append.mono (by decide)
  | int n | float x | text s => exact ⟨_, _, rfl, by simp, by simp, by simp⟩
  | constant s v h =>
    refine ⟨_, _, rfl, by simp, by simp, fun _ he => ?_⟩
    cases he
    simp [constants] at h
  | var s h =>
    refine ⟨_, _, rfl, by simp, by simp, fun _ he => ?_⟩
    cases he
    exact h (by decide)
  | group d | list items =>
    exact ⟨_, _, rfl, by simp [Symbol.Closes], by simp, by simp⟩
  | stop | step | bare | attr | item | key | call | empty | listed | done | next => trivial

/-- What follows an operand of a level, if the level's chain goes on. -/
theorem more_follow {l : Level} (d : Derivation (.more l)) {rest : List Token}
    (h : Ends l.rank rest) : Ends (l.rank - 1) (d.tokens ++ rest) := by
  cases d with
  | stop => exact h.mono (Nat.sub_le _ _)
  | step op hop right more =>
    subst hop
    rw [tokens, List.append_assoc]
    exact .operation op

end Derivation

end Narrative
