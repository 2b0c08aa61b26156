import Narrative.Expr.Parser
import Narrative.Proofs.Shorthand.Quotation

/-! Blanks outside quotations. One may stand for another in an expression: they end the same words,
no token has one in it, and the tokens are the same. -/

namespace Narrative

open Shorthand (Quotation)

/-- The second text is the first one with blanks for some of its blanks, none inside a quotation;
`q` is where its first character stands. -/
inductive Reblanked : Quotation → List Char → List Char → Prop
  | nil (q : Quotation) : Reblanked q [] []
  | keep {q : Quotation} (c : Char) {cs ds : List Char} (h : Reblanked (q.step c) cs ds) :
      Reblanked q (c :: cs) (c :: ds)
  | blank {c d : Char} {cs ds : List Char} (hc : isBlank c = true) (hd : isBlank d = true)
      (h : Reblanked .outside cs ds) : Reblanked .outside (c :: cs) (d :: ds)

namespace Reblanked

variable {q : Quotation} {c d : Char} {as bs cs ds es w : List Char} {p : Char → Bool}

theorem step_blank (hc : isBlank c = true) : Quotation.outside.step c = .outside :=
  Quotation.step_outside (isQuote_of_isBlank hc)

theorem cons_iff : Reblanked q (c :: cs) (d :: ds) ↔
    c = d ∧ Reblanked (q.step c) cs ds ∨
      q = .outside ∧ isBlank c = true ∧ isBlank d = true ∧ Reblanked .outside cs ds := by
  constructor
  · intro h
    cases h with
    | keep _ h => exact .inl ⟨rfl, h⟩
    | blank hc hd h => exact .inr ⟨rfl, hc, hd, h⟩
  · rintro (⟨rfl, h⟩ | ⟨rfl, hc, hd, h⟩)
    · exact .keep c h
    · exact .blank hc hd h

instance decidable : (q : Quotation) → (cs ds : List Char) → Decidable (Reblanked q cs ds)
  | q, [], [] => isTrue (.nil q)
  | _, [], _ :: _ => isFalse nofun
  | _, _ :: _, [] => isFalse nofun
  | q, c :: cs, _ :: ds =>
    have := decidable (q.step c) cs ds
    have := decidable .outside cs ds
    decidable_of_iff _ cons_iff.symm

theorem refl (q : Quotation) (cs : List Char) : Reblanked q cs cs := by
  induction cs generalizing q with
  | nil => exact .nil q
  | cons c cs ih => exact .keep c (ih (q.step c))

theorem symm (h : Reblanked q cs ds) : Reblanked q ds cs := by
  induction h with
  | nil q => exact .nil q
  | keep c _ ih => exact .keep c ih
  | blank hc hd _ ih => exact .blank hd hc ih

theorem length_eq (h : Reblanked q cs ds) : cs.length = ds.length := by
  induction h with
  | nil => rfl
  | keep c _ ih | blank _ _ _ ih => rw [List.length_cons, List.length_cons, ih]

theorem run_eq (h : Reblanked q cs ds) : q.run cs = q.run ds := by
  induction h with
  | nil => rfl
  | keep c _ ih => exact ih
  | blank hc hd _ ih => rwa [Quotation.run_cons, Quotation.run_cons, step_blank hc, step_blank hd]

theorem cons_of_not_blank (h : Reblanked q (c :: cs) es) (hc : isBlank c = false) :
    ∃ ds, es = c :: ds ∧ Reblanked (q.step c) cs ds := by
  cases h with
  | keep _ h => exact ⟨_, rfl, h⟩
  | blank hc' => rw [hc] at hc'; cases hc'

theorem cons_of_blank (h : Reblanked .outside (c :: cs) es) (hc : isBlank c = true) :
    ∃ d ds, es = d :: ds ∧ isBlank d = true ∧ Reblanked .outside cs ds := by
  cases h with
  | keep _ h => exact ⟨c, _, rfl, hc, step_blank hc ▸ h⟩
  | blank _ hd h => exact ⟨_, _, rfl, hd, h⟩

theorem map_isBlank (h : Reblanked q cs ds) : cs.map isBlank = ds.map isBlank := by
  induction h with
  | nil => rfl
  | keep c _ ih => rw [List.map_cons, List.map_cons, ih]
  | blank hc hd _ ih => rw [List.map_cons, List.map_cons, hc, hd, ih]

theorem append (h : Reblanked q as bs) (h' : Reblanked (q.run as) cs ds) :
    Reblanked q (as ++ cs) (bs ++ ds) := by
  induction h with
  | nil => exact h'
  | keep c _ ih => exact .keep c (ih h')
  | blank hc hd _ ih =>
    rw [Quotation.run_cons, step_blank hc] at h'
    exact .blank hc hd (ih h')

theorem of_append (h : Reblanked q (as ++ cs) es) :
    ∃ bs ds, es = bs ++ ds ∧ Reblanked q as bs ∧ Reblanked (q.run as) cs ds := by
  induction as generalizing q es with
  | nil => exact ⟨[], es, rfl, .nil q, h⟩
  | cons a as ih =>
    rw [List.cons_append] at h
    cases h with
    | keep _ h =>
      obtain ⟨bs, ds, rfl, ha, hc⟩ := ih h
      exact ⟨a :: bs, ds, rfl, .keep a ha, hc⟩
    | blank ha hd h =>
      obtain ⟨bs, ds, rfl, has, hc⟩ := ih h
      refine ⟨_ :: bs, ds, rfl, .blank ha hd has, ?_⟩
      rwa [Quotation.run_cons, step_blank ha]

theorem eq_of_not_blank (h : Reblanked q cs ds) (hcs : ∀ c ∈ cs, isBlank c = false) : cs = ds := by
  induction h with
  | nil => rfl
  | keep c _ ih => rw [ih fun d hd => hcs d (.tail c hd)]
  | blank hc => rw [hcs _ List.mem_cons_self] at hc; cases hc

theorem head?_eq_some_iff (h : Reblanked q cs ds) (hc : isBlank c = false) :
    cs.head? = some c ↔ ds.head? = some c := by
  cases h with
  | nil | keep => exact Iff.rfl
  | blank hd he =>
    refine iff_of_false ?_ ?_
    · rintro ⟨⟩
      rw [hc] at hd
      cases hd
    · rintro ⟨⟩
      rw [hc] at he
      cases he

theorem runs (hp : ∀ c, isBlank c = true → p c = false) (h : Reblanked q cs ds) :
    cs.takeWhile p = ds.takeWhile p ∧
      Reblanked (q.run (cs.takeWhile p)) (cs.dropWhile p) (ds.dropWhile p) := by
  induction h with
  | nil q => exact ⟨rfl, .nil q⟩
  | @keep q c cs ds h ih =>
    cases hc : p c with
    | true =>
      simp only [List.takeWhile_cons, List.dropWhile_cons, hc, if_true]
      exact ⟨congrArg (c :: ·) ih.1, ih.2⟩
    | false =>
      simp only [List.takeWhile_cons, List.dropWhile_cons, hc]
      exact ⟨rfl, .keep c h⟩
  | blank hc hd h =>
    simp only [List.takeWhile_cons, List.dropWhile_cons, hp _ hc, hp _ hd]
    exact ⟨rfl, .blank hc hd h⟩

/-- A run of a class without blanks and quotes is kept, and what follows it stands outside
quotations. -/
theorem plain_runs (hp : ∀ c, p c = true → isBlank c = false ∧ isQuote c = false)
    (h : Reblanked .outside cs ds) :
    cs.takeWhile p = ds.takeWhile p ∧ Reblanked .outside (cs.dropWhile p) (ds.dropWhile p) := by
  have hruns := h.runs fun c hc => Bool.eq_false_iff.mpr fun hpc => by
    rw [(hp c hpc).1] at hc
    cases hc
  have hrun : Quotation.outside.run (cs.takeWhile p) = .outside :=
    Quotation.run_outside_of_plain fun c hc =>
      (hp c (List.all_eq_true.mp List.all_takeWhile c hc)).2
  rwa [hrun] at hruns

theorem isPrefixOf_eq (hw : ∀ c ∈ w, isBlank c = false) (h : Reblanked q cs ds) :
    w.isPrefixOf cs = w.isPrefixOf ds := by
  induction h generalizing w with
  | nil => rfl
  | keep c _ ih =>
    cases w with
    | nil => rfl
    | cons a w =>
      rw [List.isPrefixOf, List.isPrefixOf, ih fun d hd => hw d (.tail a hd)]
  | @blank c d _ _ hc hd _ _ =>
    cases w with
    | nil => rfl
    | cons a w =>
      have ha := hw a List.mem_cons_self
      have hac : (a == c) = false := beq_false_of_ne fun he => by rw [he, hc] at ha; cases ha
      have had : (a == d) = false := beq_false_of_ne fun he => by rw [he, hd] at ha; cases ha
      rw [List.isPrefixOf, List.isPrefixOf, hac, had]
      rfl

end Reblanked

theorem Symbol.isBlank_of_mem_chars {s : Symbol} : ∀ c ∈ s.chars, isBlank c = false := by
  cases s <;> simp [Symbol.chars] <;> decide

namespace Token

open Reblanked

variable {c q : Char} {cs ds : List Char}

/-- What is read is the same, and what is left differs in blanks. -/
def Alike {α : Type} (r r' : α × List Char) : Prop :=
  r.1 = r'.1 ∧ Reblanked .outside r.2 r'.2

/-- Two readings that fail alike, or read the same and leave what differs in blanks. -/
inductive ReadAlike {α : Type} : Except ParseError (α × List Char) → Except ParseError
    (α × List Char) → Prop
  | error (e : ParseError) : ReadAlike (.error e) (.error e)
  | ok {r r' : α × List Char} (h : Alike r r') : ReadAlike (.ok r) (.ok r')

theorem optionRel_map {α β : Type} {o o' : Option (α × List Char)} (h : Option.Rel Alike o o')
    (f : α → β) :
    Option.Rel Alike (o.map fun r => (f r.1, r.2)) (o'.map fun r => (f r.1, r.2)) := by
  cases h with
  | none => exact .none
  | some h => exact .some ⟨congrArg f h.1, h.2⟩

/-- No blank of a quotation is replaced, and it ends where it did. -/
theorem quoted_reblanked (hq : isQuote q = true) (h : Reblanked (.inside q) cs ds) :
    Option.Rel Alike (quoted q cs) (quoted q ds) := by
  have hne := isQuote_ne_backslash hq
  fun_induction quoted q cs generalizing ds with
  | case1 =>
    cases h
    exact .none
  | case2 c cs ih =>
    cases h with
    | keep _ h =>
      cases h with
      | keep _ h =>
        rw [quoted]
        exact optionRel_map (ih h) (unescape c :: ·)
  | case3 cs =>
    cases h with
    | keep _ h =>
      rw [Quotation.step, if_neg hne, if_pos rfl] at h
      rw [quoted, if_pos rfl]
      · exact .some ⟨rfl, h⟩
      · exact fun _ _ he => absurd he hne
  | case4 c cs hb hc ih =>
    cases h with
    | @keep _ _ _ ds h =>
      by_cases hbackslash : c = '\\'
      · -- A backslash that hides nothing is the last character.
        subst hbackslash
        cases cs with
        | cons d cs => exact absurd rfl (hb d cs rfl)
        | nil =>
          cases h
          have hnone : quoted q ['\\'] = none := by simp [quoted, hc]
          rw [hnone]
          exact .none
      · rw [Quotation.step, if_neg hbackslash, if_neg hc] at h
        have hquoted : quoted q (c :: ds) = (quoted q ds).map fun r => (c :: r.1, r.2) := by
          rw [quoted, if_neg hc]
          exact fun _ _ he => absurd he hbackslash
        rw [hquoted]
        exact optionRel_map (ih h) (c :: ·)

theorem fraction?_point (cs : List Char) : fraction? ('.' :: cs) =
    if cs.takeWhile Char.isDigit = [] then none
      else some (cs.takeWhile Char.isDigit, cs.dropWhile Char.isDigit) := by
  cases cs with
  | nil => rfl
  | cons d cs => cases hd : d.isDigit <;> simp [fraction?, hd]

theorem fraction?_of_head (h : cs.head? ≠ some '.') : fraction? cs = none := by
  unfold fraction?
  split
  · exact absurd rfl h
  · rfl

theorem isBlank_isQuote_of_isDigit (hc : c.isDigit = true) :
    isBlank c = false ∧ isQuote c = false :=
  ⟨isBlank_of_isDigit hc, isQuote_of_isDigit hc⟩

theorem isBlank_isQuote_of_continuesName (hc : continuesName c = true) :
    isBlank c = false ∧ isQuote c = false :=
  ⟨isBlank_of_continuesName hc, isQuote_of_continuesName hc⟩

theorem fraction?_reblanked (h : Reblanked .outside cs ds) :
    Option.Rel Alike (fraction? cs) (fraction? ds) := by
  by_cases hpoint : cs.head? = some '.'
  · obtain ⟨cs, rfl⟩ := List.head?_eq_some_iff.mp hpoint
    obtain ⟨ds, rfl, htail⟩ := h.cons_of_not_blank (by decide)
    obtain ⟨hdigits, hrest⟩ := plain_runs (fun _ => isBlank_isQuote_of_isDigit) htail
    rw [fraction?_point, fraction?_point, ← hdigits]
    split
    · exact .none
    · exact .some ⟨rfl, hrest⟩
  · have hpoint' : ds.head? ≠ some '.' := mt (h.head?_eq_some_iff (by decide)).mpr hpoint
    rw [fraction?_of_head hpoint, fraction?_of_head hpoint']
    exact .none

theorem number_reblanked (whole : List Char) (h : Reblanked .outside cs ds) :
    ReadAlike (number whole cs) (number whole ds) := by
  have hfraction := fraction?_reblanked h
  unfold number
  generalize fraction? cs = o at hfraction
  generalize fraction? ds = o' at hfraction
  cases hfraction with
  | @some r r' hr =>
    obtain ⟨digits, rest⟩ := r
    obtain ⟨rfl, hrest⟩ := hr
    exact .ok ⟨rfl, hrest⟩
  | none =>
    dsimp only
    split
    · exact .ok ⟨rfl, h⟩
    · exact .error _

theorem symbol?_reblanked (h : Reblanked .outside cs ds) :
    Option.Rel Alike (symbol? cs) (symbol? ds) := by
  have hfind : (Symbol.all.find? fun s => s.chars.isPrefixOf ds) = Symbol.all.find? fun s =>
      s.chars.isPrefixOf cs := by
    refine congrArg Symbol.all.find? (funext fun s => ?_)
    exact (h.isPrefixOf_eq Symbol.isBlank_of_mem_chars).symm
  rw [symbol?, symbol?, hfind]
  cases hs : Symbol.all.find? fun s => s.chars.isPrefixOf cs with
  | none => exact .none
  | some s =>
    have hp : s.chars.isPrefixOf cs = true := by simpa using List.find?_some hs
    obtain ⟨rest, rfl⟩ := List.isPrefixOf_iff_prefix.mp hp
    obtain ⟨bs, rest', rfl, hchars, hrest⟩ := h.of_append
    obtain rfl := hchars.eq_of_not_blank Symbol.isBlank_of_mem_chars
    rw [Quotation.run_outside_of_plain Symbol.isQuote_of_mem_chars] at hrest
    refine .some ⟨rfl, ?_⟩
    dsimp only
    rwa [List.drop_left, List.drop_left]

theorem next_reblanked (h : Reblanked (Quotation.outside.step c) cs ds) :
    ReadAlike (next c cs) (next c ds) := by
  have hplain (hc : isQuote c = false) : Reblanked .outside cs ds := Quotation.step_outside hc ▸ h
  unfold next
  split
  · next hc =>
    obtain ⟨hdigits, hrest⟩ :=
      plain_runs (fun _ => isBlank_isQuote_of_isDigit) (hplain (isQuote_of_isDigit hc))
    rw [← hdigits]
    exact number_reblanked _ hrest
  split
  · next hc =>
    have hquote := isQuote_of_continuesName (continuesName_of_startsName hc)
    obtain ⟨hname, hrest⟩ := plain_runs (fun _ => isBlank_isQuote_of_continuesName) (hplain hquote)
    rw [← hname]
    exact .ok ⟨rfl, hrest⟩
  split
  · next hc =>
    have hquote : isQuote c = true := isQuote_iff.mpr (by simpa using hc)
    rw [Quotation.step, if_pos hquote] at h
    have hquoted := quoted_reblanked hquote h
    generalize quoted c cs = o at hquoted
    generalize quoted c ds = o' at hquoted
    cases hquoted with
    | @some r r' hr =>
      obtain ⟨s, rest⟩ := r
      obtain ⟨rfl, hrest⟩ := hr
      exact .ok ⟨rfl, hrest⟩
    | none => exact .error _
  · have hsymbol := symbol?_reblanked (.keep c h)
    generalize symbol? (c :: cs) = o at hsymbol
    generalize symbol? (c :: ds) = o' at hsymbol
    cases hsymbol with
    | @some r r' hr =>
      obtain ⟨s, rest⟩ := r
      obtain ⟨rfl, hrest⟩ := hr
      exact .ok ⟨rfl, hrest⟩
    | none => exact .error _

theorem lex_reblanked : ∀ {cs ds : List Char}, Reblanked .outside cs ds → lex cs = lex ds
  | [], ds, h => by
    cases h
    rfl
  | c :: cs, ds, h => by
    cases hb : isBlank c with
    | true =>
      obtain ⟨d, ds, rfl, hd, htail⟩ := h.cons_of_blank hb
      rw [lex_blank hb, lex_blank hd]
      exact lex_reblanked htail
    | false =>
      obtain ⟨ds, rfl, htail⟩ := h.cons_of_not_blank hb
      have hnext := next_reblanked htail
      generalize hcs : next c cs = r at hnext
      generalize hds : next c ds = r' at hnext
      cases hnext with
      | error e => rw [lex_error hb hcs, lex_error hb hds]
      | @ok r r' hr =>
        obtain ⟨t, rest⟩ := r
        have : rest.length ≤ cs.length := next_length hcs
        obtain ⟨rfl, hrest⟩ := hr
        rw [lex_next hb hcs, lex_next hb hds, lex_reblanked hrest]
termination_by cs => cs.length

end Token

theorem Expr.parse_reblanked {s s' : String} (h : Reblanked .outside s.toList s'.toList) :
    parse s = parse s' := by
  rw [parse, parse, Token.lex_reblanked h]

end Narrative
