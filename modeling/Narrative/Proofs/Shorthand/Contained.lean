import Narrative.Proofs.Shorthand.Pieces

/-! When the words of shorthand are data: exactly if each one that starts with a quote is one quoted
text, but for a comma that the last may have after it. -/

namespace Narrative.Shorthand

open Token Quotation

theorem Unbroken.drop {a b : List Char} (h : Unbroken (a ++ b)) (ha : outside.run a = outside) :
    Unbroken b := by
  rintro before c after rfl hrun
  refine h (a ++ before) c after (List.append_assoc a before _).symm ?_
  rw [run_append, ha, hrun]

theorem lex_unbroken_nil {cs : List Char} (h : Unbroken cs) (hl : lex cs = .ok []) : cs = [] := by
  cases cs with
  | nil => rfl
  | cons c cs =>
    obtain ⟨t, rest, us, _, _, he⟩ := (lex_cons_ok (h [] c cs rfl rfl)).mp hl
    cases he

theorem next_comma {c : Char} {cs rest : List Char} (h : next c cs = .ok (.symbol .comma, rest)) :
    c :: cs = ',' :: rest := by
  unfold next number at h
  split at h
  · split at h
    · cases h
    · split at h <;> cases h
  split at h
  · cases h
  split at h
  · split at h <;> cases h
  split at h
  · next hs =>
    cases h
    exact symbol?_iff hs
  · cases h

theorem lex_unbroken_comma {cs : List Char} (h : Unbroken cs) (hl : lex cs = .ok [.symbol .comma]) :
    cs = [','] := by
  cases cs with
  | nil => rw [lex_nil] at hl; cases hl
  | cons c cs =>
    obtain ⟨t, rest, us, hn, hu, he⟩ := (lex_cons_ok (h [] c cs rfl rfl)).mp hl
    cases he
    have hc := next_comma hn
    rw [hc] at h ⊢
    have hrest : Unbroken rest := Unbroken.drop (a := [',']) h rfl
    rw [lex_unbroken_nil hrest hu]

theorem lex_startsQuoted {w : List Char} {ts : List Token} (hq : StartsQuoted w) (hu : Unbroken w)
    (h : lex w = .ok ts) :
    ∃ u s rest us, w = u ++ rest ∧ Quoted u s ∧ Unbroken rest ∧ lex rest = .ok us ∧
      ts = .text (String.ofList s) :: us := by
  obtain ⟨q, cs, rfl, hc⟩ := startsQuoted_iff.mp hq
  have hopen : isQuote q = true := isQuote_iff.mpr hc
  have hrun := lex_run h
  rw [run_cons, step, if_pos hopen] at hrun
  obtain ⟨s, rest, hs⟩ := quoted_of_run hrun
  obtain ⟨body, rfl, hw⟩ := (quoted_iff (isQuote_ne_backslash hopen)).mp hs
  rw [lex_quoted hc hw] at h
  obtain ⟨us, hus, rfl⟩ := ahead_eq_ok.mp h
  have hsplit : q :: (body ++ q :: rest) = (q :: (body ++ [q])) ++ rest := by simp
  refine ⟨q :: (body ++ [q]), s, rest, us, hsplit, ⟨q, body, hopen, hw, rfl⟩, ?_, hus, rfl⟩
  rw [hsplit] at hu
  refine hu.drop ?_
  rw [run_cons, step, if_pos hopen, run_written hopen hw]
  rfl

theorem quoted_of_literalTokens {w : List Char} {ts : List Token} (hq : StartsQuoted w)
    (hu : Unbroken w) (h : lex w = .ok ts) (hl : LiteralTokens ts) : ∃ s, Quoted w s := by
  obtain ⟨u, s, rest, us, rfl, hs, hr, hus, rfl⟩ := lex_startsQuoted hq hu h
  obtain rfl := hl.text _ us rfl
  rw [lex_unbroken_nil hr hus, List.append_nil]
  exact ⟨s, hs⟩

theorem quoted_of_literalTokens_comma {w : List Char} {ts : List Token} (hq : StartsQuoted w)
    (hu : Unbroken w) (h : lex w = .ok (ts ++ [.symbol .comma])) (hl : LiteralTokens ts) :
    ∃ u s, w = u ++ [','] ∧ Quoted u s := by
  obtain ⟨u, s, rest, us, rfl, hs, hr, hus, he⟩ := lex_startsQuoted hq hu h
  obtain ⟨t, ts, rfl⟩ := List.exists_cons_of_ne_nil hl.nonempty
  obtain ⟨rfl, rfl⟩ := List.cons.inj he
  obtain rfl := hl.text _ ts rfl
  exact ⟨u, s, by rw [lex_unbroken_comma hr hus], hs⟩

/-- Every word that starts with a quote is one quoted text; the last may have a comma after it. -/
structure Whole (ws : List String) : Prop where
  init : ∀ w ∈ ws.dropLast, StartsQuoted w.toList → ∃ s, Quoted w.toList s
  last : ∀ w, ws.getLast? = some w → StartsQuoted w.toList →
    (∃ s, Quoted w.toList s) ∨ ∃ u s, w.toList = u ++ [','] ∧ Quoted u s

theorem Whole.of_all {ws : List String}
    (h : ∀ w ∈ ws, StartsQuoted w.toList → ∃ s, Quoted w.toList s) : Whole ws :=
  ⟨fun w hw => h w (List.dropLast_subset ws hw),
    fun w hw hq => .inl (h w (List.mem_of_getLast? hw) hq)⟩

theorem quoted_of_readAll {ws : List String} {tss : List (List Token)} (h : ReadAll ws tss)
    (hu : ∀ w ∈ ws, Unbroken w.toList) (hl : ∀ ts ∈ tss, LiteralTokens ts) :
    ∀ w ∈ ws, StartsQuoted w.toList → ∃ s, Quoted w.toList s := by
  induction h with
  | nil => simp
  | @cons w ts ws tss hw _ ih =>
    rintro v (_ | ⟨_, hv⟩) hq
    · rw [literal_of_startsQuoted hq] at hw
      exact quoted_of_literalTokens hq (hu w (by simp)) hw (hl ts (by simp))
    · exact ih (fun x hx => hu x (by simp [hx])) (fun x hx => hl x (by simp [hx])) v hv hq

theorem readAll_snoc {ws : List String} {tss : List (List Token)} {ts : List Token}
    (h : ReadAll ws (tss ++ [ts])) :
    ∃ init w, ws = init ++ [w] ∧ ReadAll init tss ∧ lex (literal w).toList = .ok ts := by
  induction tss generalizing ws with
  | nil =>
    cases h with
    | @cons w _ ws _ hw hws =>
      cases hws
      exact ⟨[], w, rfl, .nil, hw⟩
  | cons us tss ih =>
    cases h with
    | @cons w _ ws _ hw hws =>
      obtain ⟨init, v, rfl, hi, hv⟩ := ih hws
      exact ⟨w :: init, v, rfl, .cons hw hi, hv⟩

theorem literal_head (w : String) : ∃ c cs, (literal w).toList = c :: cs ∧ isBlank c = false := by
  by_cases hn : LooksInteger w.toList ∨ LooksDecimal w.toList
  · obtain ⟨c, cs, hw, hc⟩ := looksNumeric_head hn
    rw [literal_of_numeric hn]
    refine ⟨c, cs, hw, ?_⟩
    rcases hc with rfl | hc
    · decide
    · exact isBlank_of_isDigit hc
  by_cases hq : StartsQuoted w.toList
  · obtain ⟨c, cs, hw, hc⟩ := startsQuoted_iff.mp hq
    rw [literal_of_startsQuoted hq]
    exact ⟨c, cs, hw, by rcases hc with rfl | rfl <;> decide⟩
  by_cases hb : ∃ b, Spells w.toList b
  · obtain ⟨b, hb⟩ := hb
    rw [literal_of_spells hb]
    cases b
    · exact ⟨'f', ['a', 'l', 's', 'e'], by decide, by decide⟩
    · exact ⟨'t', ['r', 'u', 'e'], by decide, by decide⟩
  · rw [literal_of_bare hn (fun b h => hb ⟨b, h⟩) hq]
    exact ⟨_, _, rfl, by decide⟩

theorem readAll_ne_nil {ws : List String} {tss : List (List Token)} (h : ReadAll ws tss) :
    ∀ ts ∈ tss, ts ≠ [] := by
  induction h with
  | nil => simp
  | @cons w us ws tss hw _ ih =>
    rintro ts (_ | ⟨_, hts⟩)
    · obtain ⟨c, cs, hc, hb⟩ := literal_head w
      rw [hc] at hw
      obtain ⟨t, rest, us, _, _, rfl⟩ := (lex_cons_ok hb).mp hw
      exact List.cons_ne_nil t us
    · exact ih ts hts

theorem callText_of_call? {isVerb : String → Bool} {content head s : String} {ws : List String}
    (hwords : words content = head :: ws) (hs : call? isVerb content = some s) :
    s.toList = callText head ws false := by
  simp only [call?, hwords] at hs
  split at hs
  · cases hs
  · cases hs
    simp [callText, argumentText, commaText]

theorem whole_of_literals {w : String} {ws : List String} {d : Derivation .args}
    (hu : ∀ v ∈ w :: ws, Unbroken v.toList)
    (hclosed : ∀ v ∈ (w :: ws).dropLast, outside.run v.toList = outside)
    (hlex : lex (argumentText (w :: ws) ++ [')']) = .ok (d.tokens ++ [.symbol .rparen]))
    (hl : d.Legal) (hlen : d.value.length = (w :: ws).length) (hv : ∀ e ∈ d.value, e.IsLiteral) :
    Whole (w :: ws) := by
  rw [argumentText_cons, List.append_assoc] at hlex
  obtain ⟨ts, vs, hts, hvs, he⟩ := lex_first hclosed hlex
  obtain ⟨tss, hall, rfl⟩ := lex_further_ok (fun v hv => hclosed v (mem_dropLast_cons hv)) hvs
  rcases d.args_literals hl hv with rfl | ⟨us, uss, comma, hus, hlit, htok⟩
  · cases hlen
  rw [htok, ← List.append_assoc ts] at he
  have he := List.append_cancel_right he
  have hread : ReadAll (w :: ws) (ts :: tss) := .cons hts hall
  have hcount : tss.length = uss.length := by
    have h := hall.length_eq
    simp only [List.length_cons] at hus hlen
    omega
  rcases Derivation.further_injective hcount (readAll_ne_nil hall) (hlit us (by simp)).no_comma
    (fun x hx => (hlit x (by simp [hx])).no_comma) he.symm with heq | ⟨init, l, hl, hr⟩
  · rw [heq] at hread
    exact .of_all (quoted_of_readAll hread hu hlit)
  · rw [hl] at hread
    rw [hr] at hlit
    obtain ⟨vs, v, hws, hinit, hlast⟩ := readAll_snoc hread
    rw [hws] at hu ⊢
    refine ⟨fun x hx => ?_, fun x hx hq => ?_⟩
    · rw [List.dropLast_concat] at hx
      exact quoted_of_readAll hinit (fun y hy => hu y (by simp [hy]))
        (fun y hy => hlit y (by simp [hy])) x hx
    · rw [List.getLast?_concat, Option.some.injEq] at hx
      subst hx
      rw [literal_of_startsQuoted hq] at hlast
      exact .inr (quoted_of_literalTokens_comma hq (hu v (by simp)) hlast (hlit l (by simp)))

/-- A word denotes a value if its literal can be read: too large a number cannot. -/
theorem denotes_of_lex {w : String} {rest : List Char} {ts : List Token}
    (hq : StartsQuoted w.toList → ∃ s, Quoted w.toList s) (hr : EndsArgument rest)
    (h : lex ((literal w).toList ++ rest) = .ok ts) :
    ∃ v us, Denotes w.toList v ∧ lex rest = .ok us := by
  obtain ⟨v, hv⟩ : ∃ v, Denotes w.toList v := by
    refine exists_denotes hq fun negative ds hd hw => ?_
    rw [literal_of_numeric (.inl ⟨negative, ds, hd, hw⟩), hw] at h
    cases hn : int64? (Nat.ofDigitChars 10 ds 0) with
    | none =>
      have hlarge := lex_large hd hr.endsToken hn
      cases negative with
      | false =>
        rw [show signed false ds = ds from rfl, hlarge] at h
        cases h
      | true =>
        rw [show signed true ds = '-' :: ds from rfl, List.cons_append, lex_minus, hlarge] at h
        cases h
    | some n =>
      unfold int64? at hn
      split at hn
      · next hle => exact hle.2
      · cases hn
  obtain ⟨d, _, _, hd⟩ := Denotes.reads hv
  rw [hd rest hr] at h
  obtain ⟨us, hus, _⟩ := ahead_eq_ok.mp h
  exact ⟨v, us, hv, hus⟩

theorem denoteAll_of_lex_further {ws : List String} {comma : Bool} {rest : List Char}
    {ts : List Token} (hq : ∀ w ∈ ws, StartsQuoted w.toList → ∃ s, Quoted w.toList s)
    (h : lex (furtherText ws ++ (commaText comma ++ ')' :: rest)) = .ok ts) :
    ∃ vs, DenoteAll ws vs := by
  induction ws generalizing ts with
  | nil => exact ⟨[], .nil⟩
  | cons w ws ih =>
    rw [lex_further_cons] at h
    obtain ⟨us, hus, rfl⟩ := ahead_eq_ok.mp h
    obtain ⟨v, xs, hv, hxs⟩ :=
      denotes_of_lex (hq w (by simp)) (endsArgument_further ws comma rest) hus
    obtain ⟨vs, hvs⟩ := ih (fun x hx => hq x (by simp [hx])) hxs
    exact ⟨v :: vs, .cons hv hvs⟩

theorem denoteAll_of_lex {head : String} {ws : List String} {comma : Bool} {ts : List Token}
    (hname : isName head = true) (hq : ∀ w ∈ ws, StartsQuoted w.toList → ∃ s, Quoted w.toList s)
    (h : lex (callText head ws comma) = .ok ts) : ∃ vs, DenoteAll ws vs := by
  rw [callText, lex_head hname] at h
  obtain ⟨us, hus, _⟩ := ahead_eq_ok.mp h
  cases ws with
  | nil => exact ⟨[], .nil⟩
  | cons w ws =>
    rw [argumentText_cons, List.append_assoc] at hus
    obtain ⟨v, xs, hv, hxs⟩ :=
      denotes_of_lex (hq w (by simp)) (endsArgument_further ws comma []) hus
    obtain ⟨vs, hvs⟩ := denoteAll_of_lex_further (fun x hx => hq x (by simp [hx])) hxs
    exact ⟨v :: vs, .cons hv hvs⟩

theorem furtherText_snoc (ws : List String) (w : String) :
    furtherText (ws ++ [w]) = furtherText ws ++ (", ".toList ++ (literal w).toList) := by
  simp [furtherText]

theorem argumentText_snoc (init : List String) {w u : String} (h : w.toList = u.toList ++ [','])
    (hu : StartsQuoted u.toList) :
      argumentText (init ++ [w]) = argumentText (init ++ [u]) ++ [','] := by
  have hw : StartsQuoted w.toList := by
    obtain ⟨c, cs, hc, hq⟩ := startsQuoted_iff.mp hu
    exact startsQuoted_iff.mpr ⟨c, cs ++ [','], by rw [h, hc]; rfl, hq⟩
  have hl : (literal w).toList = (literal u).toList ++ [','] := by
    rw [literal_of_startsQuoted hw, literal_of_startsQuoted hu, h]
  cases init with
  | nil =>
    rw [List.nil_append, List.nil_append, argumentText_cons, argumentText_cons, hl]
    simp [furtherText]
  | cons x init =>
    rw [List.cons_append, List.cons_append, argumentText_cons, argumentText_cons, furtherText_snoc,
      furtherText_snoc, hl]
    simp

/-- Whole words make the text of a call on as many words that denote values, if the text can be
read. -/
theorem Whole.exists_denoteAll {head : String} {ws : List String} {ts : List Token} (h : Whole ws)
    (hname : isName head = true) (hlex : lex (callText head ws false) = .ok ts) :
    ∃ us vs comma, us.length = ws.length ∧ DenoteAll us vs ∧ (comma = true → us ≠ []) ∧
      callText head ws false = callText head us comma := by
  rcases List.eq_nil_or_concat ws with rfl | ⟨init, w, rfl⟩
  · exact ⟨[], [], false, rfl, .nil, by simp, rfl⟩
  rw [List.concat_eq_append] at *
  have hinit : ∀ x ∈ init, StartsQuoted x.toList → ∃ s, Quoted x.toList s :=
    fun x hx => h.init x (by rwa [List.dropLast_concat])
  by_cases hq : StartsQuoted w.toList → ∃ s, Quoted w.toList s
  · obtain ⟨vs, hvs⟩ := denoteAll_of_lex hname
      (List.forall_mem_append.mpr ⟨hinit, List.forall_mem_singleton.mpr hq⟩) hlex
    exact ⟨init ++ [w], vs, false, rfl, hvs, by simp, rfl⟩
  · have hs : StartsQuoted w.toList := Classical.not_imp.mp hq |>.1
    rcases h.last w List.getLast?_concat hs with hw | ⟨u, s, hw, hu⟩
    · exact absurd (fun _ => hw) hq
    have hu' : Quoted (String.ofList u).toList s := by rwa [String.toList_ofList]
    have htext : callText head (init ++ [w]) false =
        callText head (init ++ [String.ofList u]) true := by
      rw [callText, argumentText_snoc init (by rwa [String.toList_ofList]) hu'.startsQuoted,
        callText]
      simp [commaText]
    rw [htext] at hlex
    obtain ⟨vs, hvs⟩ := denoteAll_of_lex hname
      (List.forall_mem_append.mpr ⟨hinit, List.forall_mem_singleton.mpr fun _ => ⟨s, hu'⟩⟩) hlex
    exact ⟨_, vs, true, by simp, hvs, by simp, htext⟩

theorem parse_lex {s : String} {e : Expr} (h : Expr.parse s = .ok e) :
    ∃ ts, lex s.toList = .ok ts ∧ Expr.ofTokens ts = .ok e :=
  bind_eq_ok.mp h

theorem call?_literals_iff {isVerb : String → Bool} {content head s : String} {ws : List String}
    {e : Expr} (hwords : words content = head :: ws) (hname : isName head = true)
    (hs : call? isVerb content = some s) (hp : Expr.parse s = .ok e) :
    (∃ args, e = .call head args ∧ args.length = ws.length ∧ ∀ a ∈ args, ∃ v, a = .lit v) ↔
      Whole ws := by
  have htext := callText_of_call? hwords hs
  obtain ⟨ts, hlex, hts⟩ := parse_lex hp
  have hlex' := hlex
  rw [htext] at hlex
  constructor
  · rintro ⟨args, rfl, hlen, hlit⟩
    cases ws with
    | nil => exact .of_all (by simp)
    | cons w ws =>
      rw [callText, lex_head hname] at hlex
      obtain ⟨us, hus, rfl⟩ := ahead_eq_ok.mp hlex
      obtain ⟨d, hl, htok, hv⟩ := Expr.ofTokens_derivation.mp hts
      obtain ⟨a, ha, rfl, hrest⟩ := d.callShape hl head args _ hv htok
      obtain rfl := (List.cons.inj hrest).2
      have hmem : ∀ v ∈ w :: ws, v ∈ words content :=
        fun v hv => hwords ▸ List.mem_cons_of_mem head hv
      exact whole_of_literals (fun v hv => (words_unbroken (hmem v hv)).2)
        (fun v hv => words_closed (hwords ▸ mem_dropLast_cons hv)) hus ha hlen hlit
  · intro h
    obtain ⟨us, vs, comma, hlen, hvs, hne, hcall⟩ := h.exists_denoteAll hname hlex
    have hp' := parse_callText hname hvs hne (htext.trans hcall)
    rw [hp] at hp'
    cases hp'
    refine ⟨_, rfl, ?_, by simp⟩
    rw [List.length_map, ← hvs.length_eq, hlen]

theorem call?_literals_iff_quoted :
    words "travel_to 'a'" = ["travel_to", "'a'"] ∧
      ((∃ args, Expr.call "travel_to" [.lit (.text "a")] = .call "travel_to" args ∧
        args.length = ["'a'"].length ∧ ∀ a ∈ args, ∃ v, a = .lit v) ↔ Whole ["'a'"]) := by
  have hw : words "travel_to 'a'" = ["travel_to", "'a'"] := by decide +kernel
  have hs : call? (fun _ => true) "travel_to 'a'" = some "travel_to('a')" := by decide +kernel
  have hp : Expr.parse "travel_to('a')" = .ok (.call "travel_to" [.lit (.text "a")]) := by
    with_unfolding_all rfl
  exact ⟨hw, call?_literals_iff hw (by decide) hs hp⟩

/-- A word that starts with a quoted text and goes on can read a variable. -/
theorem call?_reads_variable :
    ¬ ∀ (isVerb : String → Bool) (content head s : String) (ws : List String) (e : Expr),
      words content = head :: ws → isName head = true → call? isVerb content = some s →
        Expr.parse s = .ok e →
        ∃ args, e = .call head args ∧ args.length = ws.length ∧ ∀ a ∈ args, ∃ v, a = .lit v := by
  intro h
  have hw : words "travel_to 'a'~player.gold" = ["travel_to", "'a'~player.gold"] := by
    decide +kernel
  have hs : call? (fun _ => true) "travel_to 'a'~player.gold" =
      some "travel_to('a'~player.gold)" := by decide +kernel
  have hp : Expr.parse "travel_to('a'~player.gold)" =
      .ok (.call "travel_to"
        [.binary .concat (.lit (.text "a")) (.attr (.var "player") "gold")]) := by
    with_unfolding_all rfl
  obtain ⟨args, he, _, hlit⟩ := h _ _ _ _ _ _ hw (by decide) hs hp
  cases he
  obtain ⟨v, hv⟩ := hlit _ (List.mem_singleton.mpr rfl)
  cases hv

end Narrative.Shorthand
