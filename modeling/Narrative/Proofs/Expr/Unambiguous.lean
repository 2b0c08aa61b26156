import Narrative.Proofs.Expr.Follow

/-! Tokens have one derivation at most: each kind of derivation is told by its tokens if its parts
are. Legality plays no part. -/

namespace Narrative.Derivation

open Narrative.Parser

theorem constants_functional {s : String} {v w : Value} (hv : (s, v) ∈ constants)
    (hw : (s, w) ∈ constants) : v = w :=
  Option.some.inj ((mem_constants_iff.mp hv).symm.trans (mem_constants_iff.mp hw))

theorem eq_stop {l : Level} {d : Derivation (.more l)} {r r' : List Token}
    (hr : Ends l.rank r') (h : d.tokens ++ r = r') : d = .stop := by
  subst h
  cases d with
  | stop => rfl
  | step op hop right more =>
    have ho := hr.operator l (Nat.le_refl _)
    rw [tokens, List.append_assoc, op.operator?_tokens, if_pos hop] at ho
    cases ho

theorem eq_bare {d : Derivation .trail} {r r' : List Token} (hr : Ends 1 r')
    (h : d.tokens ++ r = r') : d = .bare := by
  subst h
  cases d with
  | bare => rfl
  | attr | item | key | call => cases hr.trail (Nat.le_refl 1)

theorem eq_empty {d : Derivation .args} {r r' : List Token} (hr : Phrase.args.Follow r')
    (h : d.tokens ++ r = r') : d = .empty := by
  obtain ⟨s, us, hs, rfl⟩ := hr
  cases d with
  | empty => rfl
  | listed first others =>
    rw [tokens, List.append_assoc] at h
    exact absurd h (Heads.not_close hs (Heads.append first.headed))

theorem eq_done {d : Derivation .others} {r r' : List Token} (hr : Phrase.others.Follow r')
    (h : d.tokens ++ r = r') : d = .done false := by
  obtain ⟨s, us, hs, rfl⟩ := hr
  cases d with
  | done comma =>
    cases comma with
    | false => rfl
    | true =>
      cases h
      exact absurd rfl hs.ne_comma
  | next d others =>
    cases h
    exact absurd rfl hs.ne_comma

theorem others_follow (d : Derivation .others) {r : List Token} (h : Phrase.others.Follow r) :
    Ends 9 (d.tokens ++ r) := by
  obtain ⟨s, us, hs, rfl⟩ := h
  cases d with
  | done comma =>
    cases comma with
    | false => exact .close hs
    | true => exact .comma
  | next d others => exact .comma

/-- The tokens, before others that may follow, are those of no other derivation. -/
def Unambiguous {p : Phrase} (d : Derivation p) : Prop :=
  ∀ (d' : Derivation p) (r r' : List Token), p.Follow r → p.Follow r' →
    d.tokens ++ r = d'.tokens ++ r' → d = d' ∧ r = r'

namespace Unambiguous

variable {l l' : Level}

theorem plain {body : Derivation (.chain .or)} (hb : body.Unambiguous) :
    (Derivation.plain body).Unambiguous := by
  intro d' r r' hr hr' h
  cases d' with
  | plain body' =>
    obtain ⟨rfl, rfl⟩ := hb body' _ _ (hr.mono (by decide)) (hr'.mono (by decide)) h
    exact ⟨rfl, rfl⟩
  | when body' test' | choose body' test' otherwise' =>
    simp only [tokens, List.append_assoc, List.cons_append] at h
    obtain ⟨rfl, rfl⟩ := hb body' _ _ (hr.mono (by decide)) .when h
    exact absurd rfl (hr.test (by decide)).1

theorem when {body test : Derivation (.chain .or)} (hb : body.Unambiguous)
    (ht : test.Unambiguous) : (Derivation.when body test).Unambiguous := by
  intro d' r r' hr hr' h
  cases d' with
  | plain body' =>
    simp only [tokens, List.append_assoc, List.cons_append] at h
    obtain ⟨rfl, rfl⟩ := hb body' _ _ .when (hr'.mono (by decide)) h
    exact absurd rfl (hr'.test (by decide)).1
  | when body' test' =>
    simp only [tokens, List.append_assoc, List.cons_append] at h
    obtain ⟨rfl, hi⟩ := hb body' _ _ .when .when h
    obtain ⟨rfl, rfl⟩ :=
      ht test' _ _ (hr.mono (by decide)) (hr'.mono (by decide)) (List.cons.inj hi).2
    exact ⟨rfl, rfl⟩
  | choose body' test' otherwise' =>
    simp only [tokens, List.append_assoc, List.cons_append] at h
    obtain ⟨rfl, hi⟩ := hb body' _ _ .when .when h
    obtain ⟨rfl, rfl⟩ := ht test' _ _ (hr.mono (by decide)) .otherwise (List.cons.inj hi).2
    exact absurd rfl (hr.test (by decide)).2

theorem choose {body test : Derivation (.chain .or)} {otherwise : Derivation .expr}
    (hb : body.Unambiguous) (ht : test.Unambiguous) (ho : otherwise.Unambiguous) :
    (Derivation.choose body test otherwise).Unambiguous := by
  intro d' r r' hr hr' h
  cases d' with
  | plain body' =>
    simp only [tokens, List.append_assoc, List.cons_append] at h
    obtain ⟨rfl, rfl⟩ := hb body' _ _ .when (hr'.mono (by decide)) h
    exact absurd rfl (hr'.test (by decide)).1
  | when body' test' =>
    simp only [tokens, List.append_assoc, List.cons_append] at h
    obtain ⟨rfl, hi⟩ := hb body' _ _ .when .when h
    obtain ⟨rfl, rfl⟩ := ht test' _ _ .otherwise (hr'.mono (by decide)) (List.cons.inj hi).2
    exact absurd rfl (hr'.test (by decide)).2
  | choose body' test' otherwise' =>
    simp only [tokens, List.append_assoc, List.cons_append] at h
    obtain ⟨rfl, hi⟩ := hb body' _ _ .when .when h
    obtain ⟨rfl, he⟩ := ht test' _ _ .otherwise .otherwise (List.cons.inj hi).2
    obtain ⟨rfl, rfl⟩ := ho otherwise' _ _ hr hr' (List.cons.inj he).2
    exact ⟨rfl, rfl⟩

theorem chain {first : Derivation (.operand l)} {more : Derivation (.more l)}
    (hf : first.Unambiguous) (hm : more.Unambiguous) :
      (Derivation.chain first more).Unambiguous := by
  intro d' r r' hr hr' h
  cases d' with
  | chain first' more' =>
    simp only [tokens, List.append_assoc] at h
    obtain ⟨rfl, hrest⟩ := hf first' _ _ (more.more_follow hr) (more'.more_follow hr') h
    obtain ⟨rfl, rfl⟩ := hm more' _ _ hr hr' hrest
    exact ⟨rfl, rfl⟩

theorem stop : (Derivation.stop : Derivation (.more l)).Unambiguous := by
  intro d' r r' hr hr' h
  obtain rfl := eq_stop hr h.symm
  exact ⟨rfl, h⟩

theorem step {op : BinaryOp} {hop : op.level = l} {right : Derivation (.operand l)}
    {more : Derivation (.more l)} (hright : right.Unambiguous) (hm : more.Unambiguous) :
    (Derivation.step op hop right more).Unambiguous := by
  intro d' r r' hr hr' h
  cases d' with
  | stop => cases eq_stop (d := .step op hop right more) hr' h
  | step op' hop' right' more' =>
    simp only [tokens, List.append_assoc] at h
    have ho := op.operator?_tokens l (right.tokens ++ (more.tokens ++ r))
    rw [h, op'.operator?_tokens, if_pos hop, if_pos hop'] at ho
    simp only [Option.some.injEq, Prod.mk.injEq] at ho
    obtain ⟨rfl, ho⟩ := ho
    obtain ⟨rfl, hrest⟩ := hright right' _ _ (more.more_follow hr) (more'.more_follow hr') ho.symm
    obtain ⟨rfl, rfl⟩ := hm more' _ _ hr hr' hrest
    exact ⟨rfl, rfl⟩

theorem tighter {hl : l.tighter? = some l'} {d : Derivation (.chain l')} (hd : d.Unambiguous) :
    (Derivation.tighter hl d).Unambiguous := by
  intro d' r r' hr hr' h
  have hrank := Nat.le_of_eq (Level.tighter?_rank hl)
  cases d' with
  | tighter hl' d' =>
    rw [hl] at hl'
    cases hl'
    obtain ⟨rfl, rfl⟩ := hd d' _ _ (hr.mono hrank) (hr'.mono hrank) h
    exact ⟨rfl, rfl⟩
  | negated d' | signed d' => cases hl

theorem negated {d : Derivation .negation} (hd : d.Unambiguous) :
    (Derivation.negated d).Unambiguous := by
  intro d' r r' hr hr' h
  cases d' with
  | tighter hl d' => cases hl
  | negated d' =>
    obtain ⟨rfl, rfl⟩ := hd d' _ _ hr hr' h
    exact ⟨rfl, rfl⟩

theorem signed {d : Derivation .unary} (hd : d.Unambiguous) :
    (Derivation.signed d).Unambiguous := by
  intro d' r r' hr hr' h
  cases d' with
  | tighter hl d' => cases hl
  | signed d' =>
    obtain ⟨rfl, rfl⟩ := hd d' _ _ hr hr' h
    exact ⟨rfl, rfl⟩

theorem not {d : Derivation .negation} (hd : d.Unambiguous) : (Derivation.not d).Unambiguous := by
  intro d' r r' hr hr' h
  cases d' with
  | not d' =>
    obtain ⟨rfl, rfl⟩ := hd d' _ _ hr hr' (List.cons.inj h).2
    exact ⟨rfl, rfl⟩
  | compare d' => exact absurd h.symm (Heads.not_not (by decide) (Heads.append d'.headed))

theorem compare {d : Derivation (.chain .compare)} (hd : d.Unambiguous) :
    (Derivation.compare d).Unambiguous := by
  intro d' r r' hr hr' h
  cases d' with
  | not d' => exact absurd h (Heads.not_not (by decide) (Heads.append d.headed))
  | compare d' =>
    obtain ⟨rfl, rfl⟩ := hd d' _ _ (hr.mono (by decide)) (hr'.mono (by decide)) h
    exact ⟨rfl, rfl⟩

theorem neg {d : Derivation .unary} (hd : d.Unambiguous) : (Derivation.neg d).Unambiguous := by
  intro d' r r' hr hr' h
  cases d' with
  | neg d' =>
    obtain ⟨rfl, rfl⟩ := hd d' _ _ hr hr' (List.cons.inj h).2
    exact ⟨rfl, rfl⟩
  | trailed target' trail' =>
    simp only [tokens, List.append_assoc] at h
    exact absurd h.symm (Heads.not_minus (by decide) (Heads.append target'.headed))

theorem trailed {target : Derivation .primary} {trail : Derivation .trail}
    (ht : target.Unambiguous) (hl : trail.Unambiguous) :
    (Derivation.trailed target trail).Unambiguous := by
  intro d' r r' hr hr' h
  cases d' with
  | neg d' =>
    simp only [tokens, List.append_assoc] at h
    exact absurd h (Heads.not_minus (by decide) (Heads.append target.headed))
  | trailed target' trail' =>
    simp only [tokens, List.append_assoc] at h
    obtain ⟨rfl, hrest⟩ := ht target' _ _ .zero .zero h
    obtain ⟨rfl, rfl⟩ := hl trail' _ _ hr hr' hrest
    exact ⟨rfl, rfl⟩

theorem bare : Derivation.bare.Unambiguous := by
  intro d' r r' hr hr' h
  obtain rfl := eq_bare hr h.symm
  exact ⟨rfl, h⟩

/-- What is behind a dot tells the access, so that one more access is told if the others are. -/
theorem dotted {x : Token} {access : Derivation .trail → Derivation .trail}
    (htokens : ∀ t, (access t).tokens = .symbol .dot :: x :: t.tokens)
    (honly : ∀ (d : Derivation .trail) (r us : List Token),
      d.tokens ++ r = .symbol .dot :: x :: us → d = .bare ∨ ∃ t, d = access t)
    {trail : Derivation .trail} (ht : trail.Unambiguous) : (access trail).Unambiguous := by
  intro d' r r' hr hr' h
  have hfront : (access trail).tokens ++ r = .symbol .dot :: x :: (trail.tokens ++ r) := by
    rw [htokens]
    rfl
  rcases honly d' r' _ (h.symm.trans hfront) with rfl | ⟨trail', rfl⟩
  · have hbare := congrArg tokens (eq_bare hr' h)
    rw [htokens] at hbare
    cases hbare
  · rw [hfront, htokens] at h
    obtain ⟨rfl, rfl⟩ := ht trail' _ _ hr hr' (List.cons.inj (List.cons.inj h).2).2
    exact ⟨rfl, rfl⟩

theorem attr {s : String} {trail : Derivation .trail} (ht : trail.Unambiguous) :
    (Derivation.attr s trail).Unambiguous :=
  dotted (fun _ => rfl) (fun d _ _ h => by cases d <;> simp_all [tokens]) ht

theorem item {n : Int64} {trail : Derivation .trail} (ht : trail.Unambiguous) :
    (Derivation.item n trail).Unambiguous :=
  dotted (fun _ => rfl) (fun d _ _ h => by cases d <;> simp_all [tokens]) ht

theorem key {d : Derivation .expr} {trail : Derivation .trail} (hd : d.Unambiguous)
    (ht : trail.Unambiguous) : (Derivation.key d trail).Unambiguous := by
  intro d' r r' hr hr' h
  cases d' with
  | key d' trail' =>
    simp only [tokens, List.cons_append, List.append_assoc, List.cons.injEq, true_and] at h
    obtain ⟨rfl, hrest⟩ := hd d' _ _ (.close (.inr rfl)) (.close (.inr rfl)) h
    obtain ⟨rfl, rfl⟩ := ht trail' _ _ hr hr' (List.cons.inj hrest).2
    exact ⟨rfl, rfl⟩
  | bare => cases eq_bare (d := .key d trail) hr' h
  | attr | item | call => simp [tokens] at h

theorem call {args : Derivation .args} {trail : Derivation .trail} (ha : args.Unambiguous)
    (ht : trail.Unambiguous) : (Derivation.call args trail).Unambiguous := by
  intro d' r r' hr hr' h
  cases d' with
  | call args' trail' =>
    simp only [tokens, List.cons_append, List.append_assoc, List.cons.injEq, true_and] at h
    obtain ⟨rfl, hrest⟩ := ha args' _ _ ⟨_, _, .inl rfl, rfl⟩ ⟨_, _, .inl rfl, rfl⟩ h
    obtain ⟨rfl, rfl⟩ := ht trail' _ _ hr hr' (List.cons.inj hrest).2
    exact ⟨rfl, rfl⟩
  | bare => cases eq_bare (d := .call args trail) hr' h
  | attr | item | key => simp [tokens] at h

theorem int {n : Int64} : (Derivation.int n).Unambiguous := by
  intro d' r r' _ _ h
  cases d' <;> simp_all [tokens]

theorem float {x : Float} : (Derivation.float x).Unambiguous := by
  intro d' r r' _ _ h
  cases d' <;> simp_all [tokens]

theorem text {s : String} : (Derivation.text s).Unambiguous := by
  intro d' r r' _ _ h
  cases d' <;> simp_all [tokens]

theorem constant {s : String} {v : Value} {hv : (s, v) ∈ constants} :
    (Derivation.constant s v hv).Unambiguous := by
  intro d' r r' _ _ h
  cases d' with
  | constant s' v' hv' =>
    simp only [tokens, List.cons_append, List.nil_append, List.cons.injEq, Token.word.injEq] at h
    obtain ⟨rfl, rfl⟩ := h
    obtain rfl := constants_functional hv hv'
    exact ⟨rfl, rfl⟩
  | var s' hs' =>
    simp only [tokens, List.cons_append, List.nil_append, List.cons.injEq, Token.word.injEq] at h
    exact absurd (h.1 ▸ hv) (not_mem_constants hs')
  | int | float | text | group | list => simp [tokens] at h

theorem var {s : String} {hs : s ∉ keywords} : (Derivation.var s hs).Unambiguous := by
  intro d' r r' _ _ h
  cases d' with
  | constant s' v' hv' =>
    simp only [tokens, List.cons_append, List.nil_append, List.cons.injEq, Token.word.injEq] at h
    exact absurd (h.1 ▸ hv') (not_mem_constants hs)
  | var s' hs' => simp_all [tokens]
  | int | float | text | group | list => simp [tokens] at h

theorem group {d : Derivation .expr} (hd : d.Unambiguous) : (Derivation.group d).Unambiguous := by
  intro d' r r' _ _ h
  cases d' with
  | group d' =>
    simp only [tokens, List.cons_append, List.append_assoc, List.cons.injEq, true_and] at h
    obtain ⟨rfl, hrest⟩ := hd d' _ _ (.close (.inl rfl)) (.close (.inl rfl)) h
    exact ⟨rfl, (List.cons.inj hrest).2⟩
  | int | float | text | constant | var | list => simp [tokens] at h

theorem list {items : Derivation .args} (hi : items.Unambiguous) :
    (Derivation.list items).Unambiguous := by
  intro d' r r' _ _ h
  cases d' with
  | list items' =>
    simp only [tokens, List.cons_append, List.append_assoc, List.cons.injEq, true_and] at h
    obtain ⟨rfl, hrest⟩ := hi items' _ _ ⟨_, _, .inr rfl, rfl⟩ ⟨_, _, .inr rfl, rfl⟩ h
    exact ⟨rfl, (List.cons.inj hrest).2⟩
  | int | float | text | constant | var | group => simp [tokens] at h

theorem empty : Derivation.empty.Unambiguous := by
  intro d' r r' hr hr' h
  obtain rfl := eq_empty hr h.symm
  exact ⟨rfl, h⟩

theorem listed {first : Derivation .expr} {others : Derivation .others} (hf : first.Unambiguous)
    (ho : others.Unambiguous) : (Derivation.listed first others).Unambiguous := by
  intro d' r r' hr hr' h
  cases d' with
  | empty => cases eq_empty (d := .listed first others) hr' h
  | listed first' others' =>
    simp only [tokens, List.append_assoc] at h
    obtain ⟨rfl, hrest⟩ := hf first' _ _ (others.others_follow hr) (others'.others_follow hr') h
    obtain ⟨rfl, rfl⟩ := ho others' _ _ hr hr' hrest
    exact ⟨rfl, rfl⟩

theorem done {comma : Bool} : (Derivation.done comma).Unambiguous := by
  intro d' r r' hr hr' h
  cases comma with
  | false =>
    obtain rfl := eq_done hr h.symm
    exact ⟨rfl, h⟩
  | true =>
    cases d' with
    | done comma' =>
      cases comma' with
      | false => cases eq_done (d := .done true) hr' h
      | true => exact ⟨rfl, (List.cons.inj h).2⟩
    | next d' others' =>
      obtain ⟨s, us, hs, rfl⟩ := hr
      have h : .symbol s :: us = d'.tokens ++ others'.tokens ++ r' := (List.cons.inj h).2
      exact absurd h.symm (Heads.not_close hs (.append (.append d'.headed)))

theorem next {d : Derivation .expr} {others : Derivation .others} (hd : d.Unambiguous)
    (ho : others.Unambiguous) : (Derivation.next d others).Unambiguous := by
  intro d' r r' hr hr' h
  cases d' with
  | done comma' =>
    cases comma' with
    | false => cases eq_done (d := .next d others) hr' h
    | true =>
      obtain ⟨s, us, hs, rfl⟩ := hr'
      have h : d.tokens ++ others.tokens ++ r = .symbol s :: us := (List.cons.inj h).2
      exact absurd h (Heads.not_close hs (.append (.append d.headed)))
  | next d' others' =>
    simp only [tokens, List.cons_append, List.append_assoc, List.cons.injEq, true_and] at h
    obtain ⟨rfl, hrest⟩ := hd d' _ _ (others.others_follow hr) (others'.others_follow hr') h
    obtain ⟨rfl, rfl⟩ := ho others' _ _ hr hr' hrest
    exact ⟨rfl, rfl⟩

end Unambiguous

theorem unambiguous {p : Phrase} (d : Derivation p) : d.Unambiguous := by
  induction d with
  | plain body ih => exact ih.plain
  | when body test ihb iht => exact ihb.when iht
  | choose body test otherwise ihb iht iho => exact ihb.choose iht iho
  | chain first more ihf ihm => exact ihf.chain ihm
  | stop => exact .stop
  | step op h right more ihr ihm => exact ihr.step ihm
  | tighter h d ih => exact ih.tighter
  | negated d ih => exact ih.negated
  | signed d ih => exact ih.signed
  | not d ih => exact ih.not
  | compare d ih => exact ih.compare
  | neg d ih => exact ih.neg
  | trailed target trail iht ihl => exact iht.trailed ihl
  | bare => exact .bare
  | attr s trail ih => exact ih.attr
  | item n trail ih => exact ih.item
  | key d trail ihd iht => exact ihd.key iht
  | call args trail iha iht => exact iha.call iht
  | int => exact .int
  | float => exact .float
  | text => exact .text
  | constant => exact .constant
  | var => exact .var
  | group d ih => exact ih.group
  | list items ih => exact ih.list
  | empty => exact .empty
  | listed first others ihf iho => exact ihf.listed iho
  | done => exact .done
  | next d others ihd iho => exact ihd.next iho

end Narrative.Derivation
