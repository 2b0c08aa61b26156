import Narrative.Proofs.Expr.Parse

/-! Derivations that mean a literal or a call: a literal has no comma in it, and a call on literals
is written with its arguments apart by commas. -/

namespace Narrative

/-- The tree is an attribute or a key of another. -/
def Expr.IsAccess : Expr → Prop
  | .attr _ _ | .index _ _ => True
  | _ => False

def Expr.IsLiteral (e : Expr) : Prop :=
  ∃ v, e = .lit v

/-- The tokens of a literal: none is a comma, and after a text there are none. -/
structure LiteralTokens (ts : List Token) : Prop where
  nonempty : ts ≠ []
  no_comma : .symbol .comma ∉ ts
  text : ∀ s us, ts = .text s :: us → us = []

namespace Derivation

theorem more_value {l : Parser.Level} (d : Derivation (.more l)) (e : Expr) :
    d = .stop ∨ ∃ op a b, d.value e = .binary op a b := by
  match d with
  | .stop => exact .inl rfl
  | .step op _ right more =>
    rcases more.more_value (.binary op e right.value) with rfl | ⟨op', a, b, h⟩
    · exact .inr ⟨op, e, right.value, rfl⟩
    · exact .inr ⟨op', a, b, h⟩

/-- What trails a tree selects from it, unless it is the arguments of a call and no more. -/
theorem trail_cases {d : Derivation .trail} {e : Expr} (hl : d.Legal e) :
    d = .bare ∨ (d.value e).IsAccess ∨
      ∃ s args, e = .var s ∧ d = .call args .bare ∧ args.Legal := by
  match d with
  | .bare => exact .inl rfl
  | .attr s trail =>
    rcases trail_cases (d := trail) hl with rfl | h | ⟨_, _, he, _⟩
    · exact .inr (.inl trivial)
    · exact .inr (.inl h)
    · cases he
  | .item n trail =>
    rcases trail_cases (d := trail) hl with rfl | h | ⟨_, _, he, _⟩
    · exact .inr (.inl trivial)
    · exact .inr (.inl h)
    · cases he
  | .key k trail =>
    rcases trail_cases (d := trail) hl.2 with rfl | h | ⟨_, _, he, _⟩
    · exact .inr (.inl trivial)
    · exact .inr (.inl h)
    · cases he
  | .call args trail =>
    obtain ⟨s, rfl, ha, ht⟩ := hl
    rcases trail_cases ht with rfl | h | ⟨_, _, he, _⟩
    · exact .inr (.inr ⟨s, args, rfl, rfl, ha⟩)
    · exact .inr (.inl h)
    · cases he

/-- A derivation that means a literal has the tokens of one. -/
def LiteralShape : {p : Phrase} → Derivation p → Prop
  | .more _, _ | .trail, _ | .args, _ | .others, _ => True
  | .expr, d | .chain _, d | .operand _, d | .negation, d | .unary, d | .primary, d =>
    d.Legal → d.value.IsLiteral → LiteralTokens d.tokens

theorem negate_isLiteral {e : Expr} (h : (Parser.negate e).IsLiteral) : e.IsLiteral := by
  obtain ⟨v, h⟩ := h
  unfold Parser.negate at h
  split at h
  · exact ⟨_, rfl⟩
  · exact ⟨_, rfl⟩
  · cases h

theorem literalShape {p : Phrase} (d : Derivation p) : d.LiteralShape := by
  induction d with
  | plain body ih | tighter h body ih | negated body ih | signed body ih | compare body ih =>
    exact ih
  | when | choose | not => rintro _ ⟨v, hv⟩; cases hv
  | chain first more ih =>
    rintro ⟨hf, _⟩ ⟨v, hv⟩
    rcases more.more_value first.value with rfl | ⟨op, a, b, h⟩
    · rw [tokens, tokens, List.append_nil]
      exact ih hf ⟨v, hv⟩
    · rw [value, h] at hv
      cases hv
  | neg d ih =>
    intro hl hv
    have h := ih hl (negate_isLiteral hv)
    exact ⟨by simp [tokens], by simpa [tokens] using h.no_comma, by simp [tokens]⟩
  | trailed target trail ih =>
    rintro ⟨ht, hl⟩ ⟨v, hv⟩
    rcases trail_cases hl with rfl | h | ⟨s, args, hs, rfl, _⟩
    · rw [tokens, tokens, List.append_nil]
      exact ih ht ⟨v, hv⟩
    · rw [value] at hv
      rw [hv] at h
      cases h
    · rw [value, hs] at hv
      cases hv
  | int n | float x => exact fun _ _ => ⟨by simp [tokens], by simp [tokens], by simp [tokens]⟩
  | text s => exact fun _ _ => ⟨by simp [tokens], by simp [tokens], by simp [tokens]⟩
  | constant s v h => exact fun _ _ => ⟨by simp [tokens], by simp [tokens], by simp [tokens]⟩
  | var | list => rintro _ ⟨v, hv⟩; cases hv
  | group d ih =>
    intro hl hv
    have h := ih hl hv
    exact ⟨by simp [tokens], by simpa [tokens] using h.no_comma, by simp [tokens]⟩
  | stop | step | bare | attr | item | key | call | empty | listed | done | next => trivial

/-- A derivation that means a call, and whose tokens begin with the name called, is a call as
written. -/
def CallShape : {p : Phrase} → Derivation p → Prop
  | .more _, _ | .trail, _ | .args, _ | .others, _ => True
  | .expr, d | .chain _, d | .operand _, d | .negation, d | .unary, d | .primary, d =>
    d.Legal → ∀ s as us, d.value = .call s as → d.tokens = .word s :: us →
      ∃ args : Derivation .args, args.Legal ∧ args.value = as ∧
        us = .symbol .lparen :: (args.tokens ++ [.symbol .rparen])

theorem callShape {p : Phrase} (d : Derivation p) : d.CallShape := by
  induction d with
  | plain body ih | tighter h body ih | negated body ih | signed body ih | compare body ih =>
    exact ih
  | when | choose | not => intro _ s as us hv; cases hv
  | chain first more ih =>
    intro hl s as us hv ht
    rcases more.more_value first.value with rfl | ⟨op, a, b, h⟩
    · rw [tokens, tokens, List.append_nil] at ht
      exact ih hl.1 s as us hv ht
    · rw [value, h] at hv
      cases hv
  | neg d => intro _ s as us _ ht; cases ht
  | trailed target trail ih =>
    intro hl s as us hv ht
    rcases trail_cases hl.2 with rfl | h | ⟨s', args, hs, rfl, ha⟩
    · rw [tokens, tokens, List.append_nil] at ht
      exact ih hl.1 s as us hv ht
    · rw [value] at hv
      rw [hv] at h
      cases h
    · rw [value, hs] at hv
      cases hv
      refine ⟨args, ha, rfl, ?_⟩
      cases target with
      | var s' =>
        rw [tokens, tokens, tokens, tokens] at ht
        exact (List.cons.inj ht).2.symm
      | int | float | text | constant | group | list => simp [tokens] at ht <;> cases hs
  | int | float | text | constant | var | list => intro _ s as us hv; cases hv
  | group d => intro _ s as us _ ht; cases ht
  | stop | step | bare | attr | item | key | call | empty | listed | done | next => trivial

def further (tss : List (List Token)) : List Token :=
  tss.flatMap fun ts => .symbol .comma :: ts

def commaTokens (comma : Bool) : List Token :=
  if comma then [.symbol .comma] else []

theorem others_literals {d : Derivation .others} (hl : d.Legal) (hv : ∀ e ∈ d.value, e.IsLiteral) :
    ∃ tss comma, tss.length = d.value.length ∧ (∀ ts ∈ tss, LiteralTokens ts) ∧
      d.tokens = further tss ++ commaTokens comma := by
  match d with
  | .done comma => exact ⟨[], comma, rfl, by simp, rfl⟩
  | .next e others =>
    obtain ⟨he, ho⟩ := hl
    have hve := hv e.value (by simp [value])
    obtain ⟨tss, comma, hlen, hts, ht⟩ := others_literals ho fun x hx => hv x (by simp [value, hx])
    refine ⟨e.tokens :: tss, comma, by simp [value, hlen], ?_, by simp [tokens, ht, further]⟩
    rintro ts (_ | ⟨_, hm⟩)
    · exact e.literalShape he hve
    · exact hts ts hm

theorem args_literals {d : Derivation .args} (hl : d.Legal) (hv : ∀ e ∈ d.value, e.IsLiteral) :
    d = .empty ∨ ∃ ts tss comma, (ts :: tss).length = d.value.length ∧
      (∀ us ∈ ts :: tss, LiteralTokens us) ∧
        d.tokens = ts ++ (further tss ++ commaTokens comma) := by
  cases d with
  | empty => exact .inl rfl
  | listed e others =>
    obtain ⟨he, ho⟩ := hl
    have hve := hv e.value (by simp [value])
    obtain ⟨tss, comma, hlen, hts, ht⟩ := others_literals ho fun x hx => hv x (by simp [value, hx])
    refine .inr ⟨e.tokens, tss, comma, by simp [value, hlen], ?_, by rw [tokens, ht]⟩
    rintro us (_ | ⟨_, hm⟩)
    · exact e.literalShape he hve
    · exact hts us hm

end Derivation

end Narrative
