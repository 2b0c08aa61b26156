import Narrative.Proofs.Expr.Follow

/-! Whatever the parser reads is derived: from every level's result, a legal derivation of the
tokens that it took. -/

namespace Narrative.Parser

open Narrative.Derivation

theorem literal_derived {t : Token} {v : Value} (h : t.literal? = some v) :
    ∃ d : Derivation .primary, d.Legal ∧ d.tokens = [t] ∧ d.value = .lit v := by
  cases t with
  | int n => cases h; exact ⟨.int n, trivial, rfl, rfl⟩
  | float x => cases h; exact ⟨.float x, trivial, rfl, rfl⟩
  | text s => cases h; exact ⟨.text s, trivial, rfl, rfl⟩
  | word s => exact ⟨.constant s v (mem_constants_iff.mpr h), trivial, rfl, rfl⟩
  | symbol s => cases h

mutual

theorem expr_derived {ts rest : List Token} {v : Expr} (h : Reads (expr ts) v rest) :
    ∃ d : Derivation .expr, d.Legal ∧ d.tokens ++ rest = ts ∧ d.value = v := by
  obtain ⟨body, mid, hbody, hend⟩ := expr_reads.mp h
  have hmid := hbody.length_lt
  obtain ⟨b, lb, htok, rfl⟩ := chain_derived hbody
  cases hend with
  | plain => exact ⟨.plain b, lb, htok, rfl⟩
  | when ht =>
    obtain ⟨t, lt, rfl, rfl⟩ := chain_derived ht
    exact ⟨.when b t, ⟨lb, lt⟩, by simp [tokens, ← htok], rfl⟩
  | choose ht ho =>
    have hlt := ht.length_lt
    obtain ⟨t, lt, htest, rfl⟩ := chain_derived ht
    obtain ⟨o, lo, rfl, rfl⟩ := expr_derived ho
    exact ⟨.choose b t o, ⟨lb, lt, lo⟩, by simp [tokens, ← htok, ← htest], rfl⟩
termination_by 20 * ts.length + 18
decreasing_by all_goals (try simp only [Level.rank, List.length_cons] at *); omega

theorem chain_derived {l : Level} {ts rest : List Token} {v : Expr}
    (h : Reads (chain l ts) v rest) :
    ∃ d : Derivation (.chain l), d.Legal ∧ d.tokens ++ rest = ts ∧ d.value = v := by
  obtain ⟨first, mid, hf, hr⟩ := chain_reads.mp h
  have hmid := hf.length_lt
  obtain ⟨f, lf, htok, rfl⟩ := operand_derived hf
  obtain ⟨m, lm, rfl, rfl⟩ := more_derived hr
  exact ⟨.chain f m, ⟨lf, lm⟩, by simp [tokens, ← htok], rfl⟩
termination_by 20 * ts.length + (2 * l.rank + 1)
decreasing_by all_goals omega

theorem more_derived {l : Level} {left v : Expr} {ts rest : List Token}
    (h : Reads (chainRest l left ts) v rest) :
    ∃ d : Derivation (.more l), d.Legal ∧ d.tokens ++ rest = ts ∧ d.value left = v := by
  cases ho : l.operator? ts with
  | none =>
    obtain ⟨rfl, rfl⟩ := (chainRest_reads_none ho).mp h
    exact ⟨.stop, trivial, rfl, rfl⟩
  | some r =>
    obtain ⟨op, after⟩ := r
    obtain ⟨right, mid, hr, hm⟩ := (chainRest_reads_some ho).mp h
    have hs := Level.operator?_short ho
    have hmid := hr.length_lt
    have hl := l.rank_le
    obtain ⟨r, lr, htok, rfl⟩ := operand_derived hr
    obtain ⟨m, lm, rfl, rfl⟩ := more_derived hm
    obtain ⟨hop, rfl⟩ := Level.operator?_some ho
    exact ⟨.step op hop r m, ⟨lr, lm⟩, by simp [tokens, ← htok], rfl⟩
termination_by 20 * ts.length
decreasing_by all_goals omega

theorem operand_derived {l : Level} {ts rest : List Token} {v : Expr}
    (h : Reads (operand l ts) v rest) :
    ∃ d : Derivation (.operand l), d.Legal ∧ d.tokens ++ rest = ts ∧ d.value = v := by
  rw [operand.eq_def] at h
  cases hl : l with
  | or | compare | concat | sum =>
    rw [hl] at h
    obtain ⟨c, lc, htok, rfl⟩ := chain_derived h
    exact ⟨.tighter rfl c, lc, htok, rfl⟩
  | and =>
    rw [hl] at h
    obtain ⟨n, ln, htok, rfl⟩ := negation_derived h
    exact ⟨.negated n, ln, htok, rfl⟩
  | product =>
    rw [hl] at h
    obtain ⟨u, lu, htok, rfl⟩ := unary_derived h
    exact ⟨.signed u, lu, htok, rfl⟩
termination_by 20 * ts.length + 2 * l.rank
decreasing_by all_goals simp only [hl, Level.rank]; omega

theorem negation_derived {ts rest : List Token} {v : Expr} (h : Reads (negation ts) v rest) :
    ∃ d : Derivation .negation, d.Legal ∧ d.tokens ++ rest = ts ∧ d.value = v := by
  generalize hts : ts = us at h
  cases negation_reads.mp h with
  | not hn =>
    obtain ⟨n, ln, rfl, rfl⟩ := negation_derived hn
    exact ⟨.not n, ln, rfl, rfl⟩
  | compare _ hc =>
    obtain ⟨c, lc, rfl, rfl⟩ := chain_derived hc
    exact ⟨.compare c, lc, rfl, rfl⟩
termination_by 20 * ts.length + 12
decreasing_by
  all_goals
    try simp only [hts, List.length_cons]
    try simp only [Level.rank]
    omega

theorem unary_derived {ts rest : List Token} {v : Expr} (h : Reads (unary ts) v rest) :
    ∃ d : Derivation .unary, d.Legal ∧ d.tokens ++ rest = ts ∧ d.value = v := by
  generalize hts : ts = us at h
  cases unary_reads.mp h with
  | neg hu =>
    obtain ⟨u, lu, rfl, rfl⟩ := unary_derived hu
    exact ⟨.neg u, lu, rfl, rfl⟩
  | trailed _ hp ht =>
    have hmid := hp.length_lt
    obtain ⟨p, lp, htok, rfl⟩ := primary_derived hp
    obtain ⟨t, lt, rfl, rfl⟩ := trail_derived ht
    exact ⟨.trailed p t, ⟨lp, lt⟩, by simp [tokens, ← htok], rfl⟩
termination_by 20 * ts.length + 2
decreasing_by all_goals (try simp only [hts, List.length_cons]); omega

theorem trail_derived {e v : Expr} {ts rest : List Token} (h : Reads (trail e ts) v rest) :
    ∃ d : Derivation .trail, d.Legal e ∧ d.tokens ++ rest = ts ∧ d.value e = v := by
  generalize hts : ts = us at h
  cases trail_reads.mp h with
  | bare => exact ⟨.bare, trivial, rfl, rfl⟩
  | @member t _ _ _ _ hm ht =>
    obtain ⟨d, ld, rfl, rfl⟩ := trail_derived ht
    cases t with
    | word s => cases hm; exact ⟨.attr s d, ld, rfl, rfl⟩
    | int n => cases hm; exact ⟨.item n d, ld, rfl, rfl⟩
    | float x | text s | symbol s => cases hm
  | key hk ht =>
    have hlt := hk.length_lt
    obtain ⟨k, lk, htok, rfl⟩ := expr_derived hk
    obtain ⟨d, ld, rfl, rfl⟩ := trail_derived ht
    exact ⟨.key k d, ⟨lk, ld⟩, by simp [tokens, ← htok], rfl⟩
  | call he ha ht =>
    have hlt := ha.length_lt
    obtain ⟨a, la, htok, rfl⟩ := args_derived (.inl rfl) ha
    obtain ⟨d, ld, rfl, rfl⟩ := trail_derived ht
    subst he
    exact ⟨.call a d, ⟨_, rfl, la, ld⟩, by simp [tokens, ← htok], rfl⟩
termination_by 20 * ts.length + 1
decreasing_by
  all_goals
    try simp only [List.length_cons] at hlt
    try simp only [hts, List.length_cons]
    omega

theorem args_derived {close : Symbol} (hclose : close.Closes)
    {ts rest : List Token} {vs : List Expr} (h : Reads (items close ts) vs rest) :
    ∃ d : Derivation .args, d.Legal ∧ d.tokens ++ .symbol close :: rest = ts ∧ d.value = vs := by
  generalize hts : ts = us at h
  cases (items_reads hclose.ne_comma).mp h with
  | none => exact ⟨.empty, trivial, rfl, rfl⟩
  | last _ hf =>
    obtain ⟨e, le, htok, rfl⟩ := expr_derived hf
    exact ⟨.listed e (.done false), ⟨le, trivial⟩, by simp [tokens, ← htok], rfl⟩
  | more _ hf hr =>
    have hlt := hf.length_lt
    obtain ⟨e, le, htok, rfl⟩ := expr_derived hf
    obtain ⟨a, la, rfl, rfl⟩ := args_derived hclose hr
    cases a with
    | empty => exact ⟨.listed e (.done true), ⟨le, trivial⟩, by simp [tokens, ← htok], rfl⟩
    | listed first others =>
      exact ⟨.listed e (.next first others), ⟨le, la⟩, by simp [tokens, ← htok], rfl⟩
termination_by 20 * ts.length + 19
decreasing_by
  all_goals
    try simp only [List.length_cons] at hlt
    try simp only [hts]
    omega

theorem primary_derived {ts rest : List Token} {v : Expr} (h : Reads (primary ts) v rest) :
    ∃ d : Derivation .primary, d.Legal ∧ d.tokens ++ rest = ts ∧ d.value = v := by
  generalize hts : ts = us at h
  cases primary_reads.mp h with
  | literal hl =>
    obtain ⟨d, ld, ht, hv⟩ := literal_derived hl
    exact ⟨d, ld, by rw [ht]; rfl, hv⟩
  | @name s _ _ hk =>
    exact ⟨.var s (by simpa [isKeyword] using hk), by simp only [Legal], rfl, rfl⟩
  | group hi =>
    obtain ⟨e, le, rfl, rfl⟩ := expr_derived hi
    exact ⟨.group e, le, by simp [tokens], rfl⟩
  | list ha =>
    obtain ⟨a, la, rfl, rfl⟩ := args_derived (.inr rfl) ha
    exact ⟨.list a, la, by simp [tokens], rfl⟩
termination_by 20 * ts.length
decreasing_by all_goals (try simp only [hts, List.length_cons]); omega

end

end Narrative.Parser
