import Narrative.Proofs.Expr.Follow

/-! The parser reads every legal derivation to its end and gives its meaning, whatever follows that
may follow such a phrase. -/

namespace Narrative

open Narrative.Parser

theorem Heads.head?_ne {n : Nat} {ts : List Token} {t : Token} (h : Heads n ts)
    (ht : ∀ us, ts ≠ t :: us) (us : List Token) : (ts ++ us).head? ≠ some t := by
  obtain ⟨u, vs, rfl, _⟩ := h
  intro he
  cases he
  exact ht vs rfl

/-- The parser of a phrase reads a derivation's tokens off the front of others. -/
def Derivation.IsRead : {p : Phrase} → Derivation p → Prop
  | .expr, d => d.Legal → ∀ rest, Ends 9 rest → Reads (expr (d.tokens ++ rest)) d.value rest
  | .chain l, d => d.Legal → ∀ rest, Ends l.rank rest →
    Reads (Parser.chain l (d.tokens ++ rest)) d.value rest
  | .more l, d => d.Legal → ∀ left rest, Ends l.rank rest →
    Reads (chainRest l left (d.tokens ++ rest)) (d.value left) rest
  | .operand l, d => d.Legal → ∀ rest, Ends (l.rank - 1) rest →
    Reads (Parser.operand l (d.tokens ++ rest)) d.value rest
  | .negation, d => d.Legal → ∀ rest, Ends 6 rest → Reads (negation (d.tokens ++ rest)) d.value rest
  | .unary, d => d.Legal → ∀ rest, Ends 1 rest → Reads (unary (d.tokens ++ rest)) d.value rest
  | .trail, d => ∀ e, d.Legal e → ∀ rest, Ends 1 rest →
    Reads (trail e (d.tokens ++ rest)) (d.value e) rest
  | .primary, d => d.Legal → ∀ rest, Reads (primary (d.tokens ++ rest)) d.value rest
  | .args, d => d.Legal → ∀ close rest, close.Closes →
    Reads (items close (d.tokens ++ .symbol close :: rest)) d.value rest
  | .others, d => d.Legal → ∀ close first ts rest, close.Closes →
    (∀ us, Ends 9 us → Reads (expr (ts ++ us)) first us) → Heads 9 ts →
    Reads (items close (ts ++ (d.tokens ++ .symbol close :: rest))) (first :: d.value) rest

namespace Derivation

theorem isRead {p : Phrase} (d : Derivation p) : d.IsRead := by
  induction d with
  | plain body ih =>
    intro hl rest hr
    exact expr_reads.mpr ⟨_, _, ih hl _ (hr.mono (by decide)), .plain (hr.test (by decide)).1⟩
  | when body test ihb iht =>
    rintro ⟨hb, ht⟩ rest hr
    rw [tokens, List.append_assoc]
    exact expr_reads.mpr ⟨_, _, ihb hb _ .when,
      .when (iht ht _ (hr.mono (by decide))) (hr.test (by decide)).2⟩
  | choose body test otherwise ihb iht iho =>
    rintro ⟨hb, ht, ho⟩ rest hr
    rw [tokens, List.append_assoc, List.cons_append, List.append_assoc, List.cons_append]
    exact expr_reads.mpr ⟨_, _, ihb hb _ .when, .choose (iht ht _ .otherwise) (iho ho _ hr)⟩
  | chain first more ihf ihm =>
    rintro ⟨hf, hm⟩ rest hr
    rw [tokens, List.append_assoc]
    exact chain_reads.mpr ⟨_, _, ihf hf _ (more.more_follow hr), ihm hm _ _ hr⟩
  | @stop l =>
    intro _ left rest hr
    exact (chainRest_reads_none (hr.operator l (Nat.le_refl _))).mpr ⟨rfl, rfl⟩
  | @step l op hop right more ihr ihm =>
    rintro ⟨hright, hm⟩ left rest hr
    rw [tokens, List.append_assoc, List.append_assoc]
    have ho : l.operator? (op.tokens ++ (right.tokens ++ (more.tokens ++ rest))) =
        some (op, right.tokens ++ (more.tokens ++ rest)) := by
      rw [op.operator?_tokens, if_pos hop]
    exact (chainRest_reads_some ho).mpr ⟨_, _, ihr hright _ (more.more_follow hr), ihm hm _ _ hr⟩
  | @tighter l l' h d ih =>
    intro hl rest hr
    rw [← Level.tighter?_rank h] at hr
    have hd := ih hl rest hr
    rw [operand.eq_def]
    cases l <;> cases h <;> exact hd
  | negated d ih | signed d ih =>
    intro hl rest hr
    rw [operand.eq_def]
    exact ih hl rest hr
  | not d ih =>
    intro hl rest hr
    exact negation_reads.mpr (.not (ih hl rest hr))
  | compare d ih =>
    intro hl rest hr
    exact negation_reads.mpr (.compare
      (Heads.head?_ne d.headed (fun _ => Heads.not_not (by decide) d.headed) rest)
      (ih hl rest (hr.mono (by decide))))
  | neg d ih =>
    intro hl rest hr
    exact unary_reads.mpr (.neg (ih hl rest hr))
  | trailed target trail iht ihr =>
    rintro ⟨ht, hl⟩ rest hr
    rw [tokens, List.append_assoc]
    exact unary_reads.mpr (.trailed
      (Heads.head?_ne target.headed (fun _ => Heads.not_minus (by decide) target.headed) _)
      (iht ht _) (ihr _ hl rest hr))
  | bare =>
    intro e _ rest hr
    exact trail_reads.mpr (.bare (hr.trail (Nat.le_refl 1)))
  | attr s trail ih | item n trail ih =>
    intro e hl rest hr
    exact trail_reads.mpr (.member rfl (ih _ hl rest hr))
  | key d trail ihd iht =>
    rintro e ⟨hd, hl⟩ rest hr
    rw [tokens, List.cons_append, List.append_assoc]
    exact trail_reads.mpr (.key (ihd hd _ (.close (.inr rfl))) (iht _ hl rest hr))
  | call args trail iha iht =>
    rintro e ⟨s, he, ha, hl⟩ rest hr
    subst he
    rw [tokens, List.cons_append, List.append_assoc]
    exact trail_reads.mpr (.call rfl (iha ha .rparen _ (.inl rfl)) (iht _ hl rest hr))
  | int n | float x | text s =>
    intro _ rest
    exact primary_reads.mpr (.literal rfl)
  | constant s v h =>
    intro _ rest
    exact primary_reads.mpr (.literal (mem_constants_iff.mp h))
  | var s h =>
    intro _ rest
    exact primary_reads.mpr (.name (literalWord?_eq_none h) (by simpa [isKeyword] using h))
  | group d ih =>
    intro hl rest
    rw [tokens, List.cons_append, List.append_assoc]
    exact primary_reads.mpr (.group (ih hl _ (.close (.inl rfl))))
  | list items ih =>
    intro hl rest
    rw [tokens, List.cons_append, List.append_assoc]
    exact primary_reads.mpr (.list (ih hl .rbracket _ (.inr rfl)))
  | empty =>
    intro _ close rest hc
    exact (items_reads hc.ne_comma).mpr .none
  | listed first others ihf iho =>
    rintro ⟨hf, ho⟩ close rest hc
    rw [tokens, List.append_assoc]
    exact iho ho close _ _ rest hc (ihf hf) first.headed
  | done comma =>
    intro _ close first ts rest hc he hh
    have hhead := hh.head?_ne (fun _ => hh.not_close hc)
    cases comma with
    | false => exact (items_reads hc.ne_comma).mpr (.last (hhead _) (he _ (.close hc)))
    | true =>
      exact (items_reads hc.ne_comma).mpr
        (.more (hhead _) (he _ .comma) ((items_reads hc.ne_comma).mpr .none))
  | next d others ihd iho =>
    rintro ⟨hd, ho⟩ close first ts rest hc he hh
    rw [tokens, List.cons_append, List.append_assoc]
    exact (items_reads hc.ne_comma).mpr
      (.more (hh.head?_ne (fun _ => hh.not_close hc) _) (he _ .comma)
      (iho ho close _ _ rest hc (ihd hd) d.headed))

end Derivation

end Narrative
