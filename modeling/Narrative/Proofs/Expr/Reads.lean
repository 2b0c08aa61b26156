import Narrative.Expr.Parser
import Narrative.Proofs.Except

/-! What each level of the expression parser takes off the front of the tokens, said once for both
directions. -/

namespace Narrative.Parser

variable {n : Nat} {α β : Type}

/-- The result is `v`, with `rest` left. -/
def Reads (x : Except ParseError (Parsed n α)) (v : α) (rest : List Token) : Prop :=
  ∃ h, x = .ok ⟨v, rest, h⟩

theorem Reads.length_lt {x : Except ParseError (Parsed n α)} {v : α} {rest : List Token}
    (h : Reads x v rest) : rest.length < n :=
  h.1

theorem chain_reads {l : Level} {ts rest : List Token} {v : Expr} :
    Reads (chain l ts) v rest ↔
      ∃ first mid, Reads (operand l ts) first mid ∧ Reads (chainRest l first mid) v rest := by
  rw [chain]
  constructor
  · rintro ⟨_, hx⟩
    obtain ⟨⟨first, mid, hf⟩, ho, hx⟩ := bind_eq_ok.mp hx
    obtain ⟨⟨all, r, ha⟩, hr, hx⟩ := bind_eq_ok.mp hx
    cases hx
    exact ⟨first, mid, ⟨hf, ho⟩, ⟨ha, hr⟩⟩
  · rintro ⟨first, mid, ⟨hf, ho⟩, ⟨ha, hr⟩⟩
    exact ⟨by omega, bind_eq_ok.mpr ⟨_, ho, bind_eq_ok.mpr ⟨_, hr, rfl⟩⟩⟩

theorem chainRest_reads_none {l : Level} {left v : Expr} {ts rest : List Token}
    (h : l.operator? ts = none) : Reads (chainRest l left ts) v rest ↔ v = left ∧ rest = ts := by
  rw [chainRest]
  split
  · constructor
    · rintro ⟨_, hx⟩
      cases hx
      exact ⟨rfl, rfl⟩
    · rintro ⟨rfl, rfl⟩
      exact ⟨_, rfl⟩
  · next hs => rw [h] at hs; cases hs

theorem chainRest_reads_some {l : Level} {op : BinaryOp} {left v : Expr}
    {ts after rest : List Token} (h : l.operator? ts = some (op, after)) :
    Reads (chainRest l left ts) v rest ↔
      ∃ right mid, Reads (operand l after) right mid ∧
        Reads (chainRest l (.binary op left right) mid) v rest := by
  rw [chainRest]
  split
  · next hn => rw [h] at hn; cases hn
  · next op' after' hs =>
    rw [h] at hs
    cases hs
    constructor
    · rintro ⟨_, hx⟩
      obtain ⟨⟨right, mid, hr⟩, ho, hx⟩ := bind_eq_ok.mp hx
      obtain ⟨⟨all, r, ha⟩, hc, hx⟩ := bind_eq_ok.mp hx
      cases hx
      exact ⟨right, mid, ⟨hr, ho⟩, ⟨ha, hc⟩⟩
    · rintro ⟨right, mid, ⟨hr, ho⟩, ⟨ha, hc⟩⟩
      have hs := Level.operator?_short h
      exact ⟨by omega, bind_eq_ok.mpr ⟨_, ho, bind_eq_ok.mpr ⟨_, hc, rfl⟩⟩⟩

/-- What follows the body of an expression. -/
inductive ExprEnd (body : Expr) : List Token → Expr → List Token → Prop where
  | plain {rest : List Token} (h : rest.head? ≠ some (.word "if")) : ExprEnd body rest body rest
  | when {ts rest : List Token} {test : Expr} (ht : Reads (chain .or ts) test rest)
      (h : rest.head? ≠ some (.word "else")) :
      ExprEnd body (.word "if" :: ts) (.when body test) rest
  | choose {ts us rest : List Token} {test otherwise : Expr}
      (ht : Reads (chain .or ts) test (.word "else" :: us)) (ho : Reads (expr us) otherwise rest) :
      ExprEnd body (.word "if" :: ts) (.choose body test otherwise) rest

theorem expr_reads {ts rest : List Token} {v : Expr} :
    Reads (expr ts) v rest ↔
      ∃ body mid, Reads (chain .or ts) body mid ∧ ExprEnd body mid v rest := by
  rw [expr]
  constructor
  · rintro ⟨_, hx⟩
    obtain ⟨⟨body, mid, hb⟩, hbody, hx⟩ := bind_eq_ok.mp hx
    refine ⟨body, mid, ⟨hb, hbody⟩, ?_⟩
    dsimp only at hx
    split at hx
    · cases hx
      exact .plain (by simp)
    · split at hx
      · next hif =>
        subst hif
        obtain ⟨⟨test, mid, ht⟩, htest, hx⟩ := bind_eq_ok.mp hx
        dsimp only at hx
        split at hx
        · cases hx
          exact .when ⟨ht, htest⟩ (by simp)
        · split at hx
          · next helse =>
            subst helse
            obtain ⟨⟨otherwise, r, ho⟩, hother, hx⟩ := bind_eq_ok.mp hx
            cases hx
            exact .choose ⟨ht, htest⟩ ⟨ho, hother⟩
          · next helse =>
            cases hx
            exact .when ⟨ht, htest⟩ (by simpa using helse)
      · next hif =>
        cases hx
        exact .plain (by simpa using hif)
  · rintro ⟨body, mid, ⟨hb, hbody⟩, hend⟩
    cases hend with
    | plain h =>
      refine ⟨hb, bind_eq_ok.mpr ⟨_, hbody, ?_⟩⟩
      dsimp only
      split
      · rfl
      · split
        · next hif => simp [hif] at h
        · rfl
    | when ht h =>
      obtain ⟨hlt, htest⟩ := ht
      have hlt' := hb
      simp only [List.length_cons] at hlt'
      refine ⟨by omega, bind_eq_ok.mpr ⟨_, hbody, ?_⟩⟩
      dsimp only
      rw [if_pos rfl]
      refine bind_eq_ok.mpr ⟨_, htest, ?_⟩
      dsimp only
      split
      · rfl
      · split
        · next helse => simp [helse] at h
        · rfl
    | choose ht ho =>
      obtain ⟨hlt, htest⟩ := ht
      obtain ⟨hlo, hother⟩ := ho
      have hlt' := hb
      simp only [List.length_cons] at hlt hlt'
      refine ⟨by omega, bind_eq_ok.mpr ⟨_, hbody, ?_⟩⟩
      dsimp only
      rw [if_pos rfl]
      refine bind_eq_ok.mpr ⟨_, htest, ?_⟩
      dsimp only
      rw [if_pos rfl]
      exact bind_eq_ok.mpr ⟨_, hother, rfl⟩

/-- A negated condition, or a comparison. -/
inductive NegationReads : List Token → Expr → List Token → Prop where
  | not {ts rest : List Token} {v : Expr} (h : Reads (negation ts) v rest) :
      NegationReads (.word "not" :: ts) (.unary .not v) rest
  | compare {ts rest : List Token} {v : Expr} (hn : ts.head? ≠ some (.word "not"))
      (h : Reads (chain .compare ts) v rest) : NegationReads ts v rest

theorem negation_reads {ts rest : List Token} {v : Expr} :
    Reads (negation ts) v rest ↔ NegationReads ts v rest := by
  rw [negation.eq_def]
  constructor
  · rintro ⟨_, hx⟩
    split at hx
    · cases hx
    · split at hx
      · next hnot =>
        subst hnot
        obtain ⟨⟨inner, mid, hi⟩, hinner, hx⟩ := bind_eq_ok.mp hx
        cases hx
        exact .not ⟨hi, hinner⟩
      · next hnot => exact .compare (by simpa using hnot) ⟨_, hx⟩
  · intro h
    cases h with
    | not h =>
      obtain ⟨hi, hinner⟩ := h
      refine ⟨Nat.lt_succ_of_lt hi, ?_⟩
      dsimp only
      rw [if_pos rfl]
      exact bind_eq_ok.mpr ⟨_, hinner, rfl⟩
    | compare hn h =>
      obtain ⟨hlt, hc⟩ := h
      refine ⟨hlt, ?_⟩
      split
      · cases hlt
      · rw [if_neg (by simpa using hn)]
        exact hc

/-- A tree with a sign, or a primary tree with what trails it. -/
inductive UnaryReads : List Token → Expr → List Token → Prop where
  | neg {ts rest : List Token} {v : Expr} (h : Reads (unary ts) v rest) :
      UnaryReads (.symbol .minus :: ts) (negate v) rest
  | trailed {ts mid rest : List Token} {target v : Expr} (hn : ts.head? ≠ some (.symbol .minus))
      (hp : Reads (primary ts) target mid) (ht : Reads (trail target mid) v rest) :
      UnaryReads ts v rest

theorem unary_reads {ts rest : List Token} {v : Expr} :
    Reads (unary ts) v rest ↔ UnaryReads ts v rest := by
  rw [unary.eq_def]
  constructor
  · rintro ⟨_, hx⟩
    split at hx
    · obtain ⟨⟨inner, mid, hi⟩, hinner, hx⟩ := bind_eq_ok.mp hx
      cases hx
      exact .neg ⟨hi, hinner⟩
    · next hn =>
      obtain ⟨⟨target, mid, hp⟩, htarget, hx⟩ := bind_eq_ok.mp hx
      obtain ⟨⟨all, r, ha⟩, hall, hx⟩ := bind_eq_ok.mp hx
      cases hx
      refine .trailed (fun hm => ?_) ⟨hp, htarget⟩ ⟨ha, hall⟩
      obtain ⟨us, rfl⟩ := List.head?_eq_some_iff.mp hm
      exact hn us rfl
  · intro h
    cases h with
    | neg h =>
      obtain ⟨hi, hinner⟩ := h
      exact ⟨Nat.lt_succ_of_lt hi, bind_eq_ok.mpr ⟨_, hinner, rfl⟩⟩
    | trailed hn hp ht =>
      obtain ⟨hp, htarget⟩ := hp
      obtain ⟨ha, hall⟩ := ht
      refine ⟨by omega, ?_⟩
      split
      · exact absurd rfl hn
      · exact bind_eq_ok.mpr ⟨_, htarget, bind_eq_ok.mpr ⟨_, hall, rfl⟩⟩

/-- Whether tokens go on the tree before them with an attribute, a key or arguments. -/
def opensTrail : List Token → Bool
  | .symbol .dot :: _ | .symbol .lbracket :: _ | .symbol .lparen :: _ => true
  | _ => false

inductive TrailReads (e : Expr) : List Token → Expr → List Token → Prop where
  | bare {rest : List Token} (h : opensTrail rest = false) : TrailReads e rest e rest
  | member {t : Token} {ts rest : List Token} {inner v : Expr} (hm : t.member? e = some inner)
      (h : Reads (trail inner ts) v rest) : TrailReads e (.symbol .dot :: t :: ts) v rest
  | key {ts us rest : List Token} {key v : Expr}
      (hk : Reads (expr ts) key (.symbol .rbracket :: us))
      (h : Reads (trail (.index e key) us) v rest) : TrailReads e (.symbol .lbracket :: ts) v rest
  | call {ts us rest : List Token} {name : String} {args : List Expr} {v : Expr}
      (he : e = .var name) (ha : Reads (items .rparen ts) args us)
      (h : Reads (trail (.call name args) us) v rest) : TrailReads e (.symbol .lparen :: ts) v rest

theorem trail_reads {e : Expr} {ts rest : List Token} {v : Expr} :
    Reads (trail e ts) v rest ↔ TrailReads e ts v rest := by
  rw [trail.eq_def]
  constructor
  · rintro ⟨_, hx⟩
    split at hx
    · cases hx
    · split at hx
      · next hm =>
        obtain ⟨⟨all, r, ha⟩, hall, hx⟩ := bind_eq_ok.mp hx
        cases hx
        exact .member hm ⟨ha, hall⟩
      · cases hx
    · obtain ⟨⟨key, mid, hk⟩, hkey, hx⟩ := bind_eq_ok.mp hx
      dsimp only at hx
      split at hx
      · obtain ⟨⟨all, r, ha⟩, hall, hx⟩ := bind_eq_ok.mp hx
        cases hx
        exact .key ⟨‹_›, hkey⟩ ⟨ha, hall⟩
      · cases hx
    · split at hx
      · obtain ⟨⟨args, mid, hi⟩, hargs, hx⟩ := bind_eq_ok.mp hx
        obtain ⟨⟨all, r, ha⟩, hall, hx⟩ := bind_eq_ok.mp hx
        cases hx
        exact .call rfl ⟨hi, hargs⟩ ⟨ha, hall⟩
      · cases hx
    · next hend hd hb hp =>
      cases hx
      refine .bare ?_
      unfold opensTrail
      split
      · next us _ =>
        cases us with
        | nil => exact absurd rfl hend
        | cons t us => exact absurd rfl (hd t us)
      · exact absurd rfl (hb _)
      · exact absurd rfl (hp _)
      · rfl
  · intro h
    cases h with
    | bare h =>
      refine ⟨by omega, ?_⟩
      split <;> first | rfl | cases h
    | member hm h =>
      obtain ⟨ha, hall⟩ := h
      refine ⟨by simp only [List.length_cons]; omega, ?_⟩
      dsimp only
      split
      · next hm' =>
        rw [hm] at hm'
        cases hm'
        exact bind_eq_ok.mpr ⟨_, hall, rfl⟩
      · next hm' => rw [hm] at hm'; cases hm'
    | key hk h =>
      obtain ⟨hlt, hkey⟩ := hk
      obtain ⟨ha, hall⟩ := h
      have hlt' := hlt
      simp only [List.length_cons] at hlt'
      refine ⟨by simp only [List.length_cons]; omega, bind_eq_ok.mpr ⟨_, hkey, ?_⟩⟩
      exact bind_eq_ok.mpr ⟨_, hall, rfl⟩
    | call he ha h =>
      subst he
      obtain ⟨hlt, hargs⟩ := ha
      obtain ⟨ha, hall⟩ := h
      refine ⟨by simp only [List.length_cons]; omega, bind_eq_ok.mpr ⟨_, hargs, ?_⟩⟩
      exact bind_eq_ok.mpr ⟨_, hall, rfl⟩

inductive ItemsReads (close : Symbol) : List Token → List Expr → List Token → Prop where
  | none {rest : List Token} : ItemsReads close (.symbol close :: rest) [] rest
  | last {ts rest : List Token} {v : Expr} (hc : ts.head? ≠ some (.symbol close))
      (h : Reads (expr ts) v (.symbol close :: rest)) : ItemsReads close ts [v] rest
  | more {ts us rest : List Token} {v : Expr} {vs : List Expr}
      (hc : ts.head? ≠ some (.symbol close)) (h : Reads (expr ts) v (.symbol .comma :: us))
      (hr : Reads (items close us) vs rest) : ItemsReads close ts (v :: vs) rest

theorem items_reads {close : Symbol} (hclose : close ≠ .comma) {ts rest : List Token}
    {vs : List Expr} : Reads (items close ts) vs rest ↔ ItemsReads close ts vs rest := by
  rw [items.eq_def]
  constructor
  · rintro ⟨_, hx⟩
    split at hx
    · cases hx
    · split at hx
      · next ht =>
        subst ht
        cases hx
        exact .none
      · next ht =>
        have hc : ∀ us, (_ :: us : List Token).head? ≠ some (.symbol close) :=
          fun _ h => ht (Option.some.inj h)
        obtain ⟨⟨first, mid, hf⟩, hfirst, hx⟩ := bind_eq_ok.mp hx
        dsimp only at hx
        split at hx
        · cases hx
        · split at hx
          · next hcomma =>
            subst hcomma
            obtain ⟨⟨others, r, ho⟩, hothers, hx⟩ := bind_eq_ok.mp hx
            cases hx
            exact .more (hc _) ⟨‹_›, hfirst⟩ ⟨ho, hothers⟩
          · split at hx
            · next hend =>
              subst hend
              cases hx
              exact .last (hc _) ⟨‹_›, hfirst⟩
            · cases hx
  · intro h
    cases h with
    | none =>
      refine ⟨by simp, ?_⟩
      dsimp only
      rw [if_pos rfl]
    | last hc h =>
      obtain ⟨hlt, hfirst⟩ := h
      have hlt' := hlt
      simp only [List.length_cons] at hlt'
      refine ⟨by omega, ?_⟩
      split
      · cases hlt
      · rw [if_neg (by simpa using hc)]
        refine bind_eq_ok.mpr ⟨_, hfirst, ?_⟩
        dsimp only
        rw [if_neg (by simpa using hclose), if_pos rfl]
        rfl
    | more hc h hr =>
      obtain ⟨hlt, hfirst⟩ := h
      obtain ⟨ho, hothers⟩ := hr
      have hlt' := hlt
      simp only [List.length_cons] at hlt'
      refine ⟨by omega, ?_⟩
      split
      · cases hlt
      · rw [if_neg (by simpa using hc)]
        refine bind_eq_ok.mpr ⟨_, hfirst, ?_⟩
        dsimp only
        rw [if_pos rfl]
        exact bind_eq_ok.mpr ⟨_, hothers, rfl⟩

inductive PrimaryReads : List Token → Expr → List Token → Prop where
  | literal {t : Token} {v : Value} {rest : List Token} (h : t.literal? = some v) :
      PrimaryReads (t :: rest) (.lit v) rest
  | name {s : String} {rest : List Token} (hl : literalWord? s = none) (hk : isKeyword s = false) :
      PrimaryReads (.word s :: rest) (.var s) rest
  | group {ts rest : List Token} {v : Expr} (h : Reads (expr ts) v (.symbol .rparen :: rest)) :
      PrimaryReads (.symbol .lparen :: ts) v rest
  | list {ts rest : List Token} {vs : List Expr} (h : Reads (items .rbracket ts) vs rest) :
      PrimaryReads (.symbol .lbracket :: ts) (.list vs) rest

theorem primary_reads {ts rest : List Token} {v : Expr} :
    Reads (primary ts) v rest ↔ PrimaryReads ts v rest := by
  rw [primary.eq_def]
  constructor
  · rintro ⟨_, hx⟩
    split at hx
    · cases hx
    · split at hx
      · next hl =>
        cases hx
        exact .literal hl
      · next hl =>
        split at hx
        · cases hx
        · next hk =>
          cases hx
          exact .name hl (by simpa using hk)
      · obtain ⟨⟨inner, mid, hi⟩, hinner, hx⟩ := bind_eq_ok.mp hx
        dsimp only at hx
        split at hx
        · cases hx
          exact .group ⟨‹_›, hinner⟩
        · cases hx
      · obtain ⟨⟨all, mid, ha⟩, hall, hx⟩ := bind_eq_ok.mp hx
        cases hx
        exact .list ⟨ha, hall⟩
      · cases hx
  · intro h
    cases h with
    | literal h =>
      refine ⟨by simp, ?_⟩
      dsimp only
      split <;> simp_all
    | name hl hk =>
      refine ⟨by simp, ?_⟩
      dsimp only
      have hl' : (Token.word _).literal? = none := hl
      split <;> simp_all
    | group h =>
      obtain ⟨hi, hinner⟩ := h
      have hi' := hi
      simp only [List.length_cons] at hi'
      exact ⟨by simp only [List.length_cons]; omega, bind_eq_ok.mpr ⟨_, hinner, rfl⟩⟩
    | list h =>
      obtain ⟨ha, hall⟩ := h
      exact ⟨Nat.lt_succ_of_lt ha, bind_eq_ok.mpr ⟨_, hall, rfl⟩⟩

end Narrative.Parser
