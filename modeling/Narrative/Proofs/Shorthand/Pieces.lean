import Narrative.Proofs.Expr.Literal
import Narrative.Proofs.Shorthand.Call
import Narrative.Proofs.Shorthand.Words

/-! The tokens of a rewritten call, word by word, against the tokens of a call on literals, argument
by argument. -/

namespace Narrative

namespace Derivation

open Token

theorem further_cons (ts : List Token) (tss : List (List Token)) :
    further (ts :: tss) = .symbol .comma :: (ts ++ further tss) :=
  rfl

theorem length_le_count_further (tss : List (List Token)) :
    tss.length ≤ (further tss).count (.symbol .comma) := by
  induction tss with
  | nil => exact Nat.le_refl 0
  | cons ts tss ih =>
    rw [further_cons, List.count_cons_self, List.count_append, List.length_cons]
    omega

theorem count_further {tss : List (List Token)} (h : ∀ ts ∈ tss, .symbol .comma ∉ ts) :
    (further tss).count (.symbol .comma) = tss.length := by
  induction tss with
  | nil => rfl
  | cons ts tss ih =>
    rw [further_cons, List.count_cons_self, List.count_append,
      List.count_eq_zero.mpr (h ts (by simp)),
      ih fun us hu => h us (by simp [hu]), List.length_cons, Nat.zero_add]

/-- A comma at the end is one more than those before the parts, if no part is empty. -/
theorem length_lt_count_further {tss : List (List Token)} {us : List Token}
    (hne : ∀ ts ∈ tss, ts ≠ []) (h : further tss = us ++ [.symbol .comma]) :
    tss.length < (further tss).count (.symbol .comma) := by
  rcases List.eq_nil_or_concat tss with rfl | ⟨init, l, rfl⟩
  · simp [further] at h
  · rw [List.concat_eq_append] at *
    have hf : further (init ++ [l]) = further init ++ .symbol .comma :: l := by simp [further]
    rcases List.eq_nil_or_concat l with rfl | ⟨l, t, rfl⟩
    · exact absurd rfl (hne [] (by simp))
    · rw [hf, List.concat_eq_append, ← List.cons_append, ← List.append_assoc] at h
      obtain ⟨_, ht⟩ := List.append_inj' h rfl
      cases ht
      have hc := length_le_count_further init
      rw [hf, List.count_append, List.count_cons_self, List.concat_eq_append, List.count_append,
        List.count_singleton_self, List.length_append, List.length_singleton]
      omega

theorem append_comma_injective {ts us rs rs' : List Token} (ht : .symbol .comma ∉ ts)
    (hu : .symbol .comma ∉ us) (h : ts ++ .symbol .comma :: rs = us ++ .symbol .comma :: rs') :
    ts = us ∧ rs = rs' := by
  have hp {vs : List Token} (hv : .symbol .comma ∉ vs) :
      ∀ t ∈ vs, (fun t => decide (t ≠ Token.symbol .comma)) t = true := by
    intro t hm
    simp only [decide_eq_true_eq]
    rintro rfl
    exact hv hm
  have he := congrArg (List.takeWhile fun t => decide (t ≠ Token.symbol .comma)) h
  rw [takeWhile_append_cons (hp ht) (by decide), takeWhile_append_cons (hp hu) (by decide)] at he
  subst he
  exact ⟨rfl, (List.cons.inj (List.append_cancel_left h)).2⟩

theorem further_eq_snoc {ts us : List Token} {tss : List (List Token)} (hpos : tss ≠ [])
    (h : ts ++ further tss = us ++ [.symbol .comma]) :
      ∃ vs, further tss = vs ++ [.symbol .comma] := by
  obtain ⟨vs, tss, rfl⟩ := List.exists_cons_of_ne_nil hpos
  rcases List.eq_nil_or_concat (further (vs :: tss)) with he | ⟨rs, t, he⟩
  · cases he
  · rw [he, List.concat_eq_append, ← List.append_assoc] at h
    obtain ⟨_, ht⟩ := List.append_inj' h rfl
    cases ht
    exact ⟨rs, by rw [he, List.concat_eq_append]⟩

/-- Were there a comma in a part that is not the last, there would be more parts on the other
side. -/
theorem comma_not_mem {ts us : List Token} {tss uss : List (List Token)} {comma : Bool}
    (hlen : tss.length = uss.length) (hpos : tss ≠ []) (hne : ∀ vs ∈ tss, vs ≠ [])
    (hu : .symbol .comma ∉ us) (huss : ∀ vs ∈ uss, .symbol .comma ∉ vs)
    (h : ts ++ further tss = us ++ (further uss ++ commaTokens comma)) : .symbol .comma ∉ ts := by
  intro hc
  have hcount := congrArg (List.count (.symbol .comma)) h
  rw [List.count_append, List.count_append, List.count_append, count_further huss,
    List.count_eq_zero.mpr hu, ← hlen] at hcount
  have hone := List.count_pos_iff.mpr hc
  cases comma with
  | false =>
    have hle := length_le_count_further tss
    simp only [commaTokens, Bool.false_eq_true, if_false, List.count_nil] at hcount
    omega
  | true =>
    rw [← List.append_assoc] at h
    obtain ⟨vs, hvs⟩ := further_eq_snoc hpos h
    have hlt := length_lt_count_further hne hvs
    simp only [commaTokens, if_true, List.count_singleton_self] at hcount
    omega

/-- Parts with commas between them are the parts without commas that give the same tokens, but for a
comma that may end the last. -/
theorem further_injective {ts us : List Token} {tss uss : List (List Token)} {comma : Bool}
    (hlen : tss.length = uss.length) (hne : ∀ vs ∈ tss, vs ≠ [])
    (hu : .symbol .comma ∉ us) (huss : ∀ vs ∈ uss, .symbol .comma ∉ vs)
    (h : ts ++ further tss = us ++ (further uss ++ commaTokens comma)) :
    ts :: tss = us :: uss ∨
      ∃ init l, ts :: tss = init ++ [l ++ [.symbol .comma]] ∧ us :: uss = init ++ [l] := by
  induction tss generalizing ts us uss with
  | nil =>
    obtain rfl := List.length_eq_zero_iff.mp hlen.symm
    cases comma with
    | false =>
      rw [show ts = us by simpa [further, commaTokens] using h]
      exact .inl rfl
    | true => exact .inr ⟨[], us, by simpa [further, commaTokens] using h, rfl⟩
  | cons vs tss ih =>
    obtain ⟨ws, uss, rfl⟩ := List.exists_cons_of_length_eq_add_one hlen.symm
    have hc := comma_not_mem hlen (List.cons_ne_nil vs tss) hne hu huss h
    rw [further_cons, further_cons, List.cons_append] at h
    obtain ⟨rfl, hrest⟩ := append_comma_injective hc hu h
    rw [List.append_assoc] at hrest
    rcases ih (Nat.succ.inj hlen) (fun xs hx => hne xs (by simp [hx])) (huss ws (by simp))
      (fun xs hx => huss xs (by simp [hx])) hrest with he | ⟨init, l, ht, hl⟩
    · exact .inl (by rw [he])
    · exact .inr ⟨ts :: init, l, by rw [ht]; rfl, by rw [hl]; rfl⟩

end Derivation

namespace Shorthand

open Token Quotation

theorem mem_dropLast_cons {α : Type} {a b : α} {as : List α} (h : a ∈ as.dropLast) :
    a ∈ (b :: as).dropLast := by
  cases as with
  | nil => cases h
  | cons c as => exact List.mem_cons_of_mem b h

theorem literal_closed {w : String} (h : outside.run w.toList = outside) :
    outside.run (literal w).toList = outside := by
  by_cases hn : LooksInteger w.toList ∨ LooksDecimal w.toList
  · rwa [literal_of_numeric hn]
  by_cases hq : StartsQuoted w.toList
  · rwa [literal_of_startsQuoted hq]
  by_cases hb : ∃ b, Spells w.toList b
  · obtain ⟨b, hb⟩ := hb
    rw [literal_of_spells hb]
    cases b <;> decide
  · rw [literal_of_bare hn (fun b h => hb ⟨b, h⟩) hq, run_cons, step, if_pos (by decide),
      run_written (by decide) (written_escape w.toList)]
    rfl

def ReadAll (ws : List String) (tss : List (List Token)) : Prop :=
  List.Forall₂ (fun w ts => lex (literal w).toList = .ok ts) ws tss

theorem lex_literal_append {w : String} {rest : List Char} {ts : List Token}
    (hr : EndsArgument rest) (hw : outside.run (literal w).toList = outside)
    (h : lex ((literal w).toList ++ rest) = .ok ts) :
    ∃ us vs, lex (literal w).toList = .ok us ∧ lex rest = .ok vs ∧ ts = us ++ vs := by
  rw [lex_append hr.endsToken hw] at h
  cases hu : lex (literal w).toList with
  | error e => rw [hu] at h; cases h
  | ok us =>
    rw [hu] at h
    obtain ⟨vs, hv, rfl⟩ := ahead_eq_ok.mp h
    exact ⟨us, vs, rfl, hv, rfl⟩

/-- The literal of the first word is closed, be it by its word or, for the last, by being read at
all. -/
theorem lex_first {w : String} {ws : List String} {ts : List Token}
    (hclosed : ∀ u ∈ (w :: ws).dropLast, outside.run u.toList = outside)
    (h : lex ((literal w).toList ++ (furtherText ws ++ [')'])) = .ok ts) :
    ∃ us vs, lex (literal w).toList = .ok us ∧ lex (furtherText ws ++ [')']) = .ok vs ∧
      ts = us ++ vs := by
  refine lex_literal_append (endsArgument_further ws false []) ?_ h
  cases ws with
  | nil => exact (run_outside_concat_iff (by decide)).mp (lex_run h)
  | cons u ws => exact literal_closed (hclosed w (by simp))

theorem lex_further_ok {ws : List String} {ts : List Token}
    (hclosed : ∀ w ∈ ws.dropLast, outside.run w.toList = outside)
    (h : lex (furtherText ws ++ [')']) = .ok ts) :
    ∃ tss, ReadAll ws tss ∧ ts = Derivation.further tss ++ [.symbol .rparen] := by
  induction ws generalizing ts with
  | nil =>
    have hr : lex [')'] = .ok [.symbol .rparen] := by rw [lex_rparen, lex_nil]; rfl
    have h : lex [')'] = .ok ts := h
    rw [hr] at h
    cases h
    exact ⟨[], .nil, rfl⟩
  | cons w ws ih =>
    rw [lex_further_cons] at h
    obtain ⟨rs, hrs, rfl⟩ := ahead_eq_ok.mp h
    obtain ⟨us, vs, hu, hv, rfl⟩ := lex_first hclosed hrs
    obtain ⟨tss, hall, rfl⟩ := ih (fun u hu => hclosed u (mem_dropLast_cons hu)) hv
    exact ⟨us :: tss, .cons hu hall, by simp [Derivation.further]⟩

end Shorthand

end Narrative
