import Narrative.Proofs.Expr.Lexing
import Narrative.Template.Shorthand

/-! Quotations as word splitting follows them and as tokens are read: a text without a quotation
left open reads by itself, whatever follows it. -/

namespace Narrative

theorem isQuote_iff {c : Char} : isQuote c = true ↔ c = '\'' ∨ c = '"' := by
  simp [isQuote]

theorem isQuote_ne_backslash {c : Char} (h : isQuote c = true) : c ≠ '\\' := by
  rintro rfl
  simp [isQuote] at h

theorem isQuote_eq_false {p : Char → Bool} (hs : p '\'' = false) (hd : p '"' = false) {c : Char}
    (h : p c = true) : isQuote c = false := by
  refine Bool.eq_false_iff.mpr fun hq => ?_
  rcases isQuote_iff.mp hq with rfl | rfl
  · rw [hs] at h
    cases h
  · rw [hd] at h
    cases h

theorem isQuote_of_isDigit {c : Char} (h : c.isDigit = true) : isQuote c = false :=
  isQuote_eq_false (p := Char.isDigit) (by decide) (by decide) h

theorem isQuote_of_continuesName {c : Char} (h : continuesName c = true) : isQuote c = false :=
  isQuote_eq_false (by decide) (by decide) h

theorem isQuote_of_isBlank {c : Char} (h : isBlank c = true) : isQuote c = false :=
  isQuote_eq_false (by decide) (by decide) h

theorem continuesName_of_startsName {c : Char} (h : startsName c = true) :
    continuesName c = true := by
  simp only [startsName, continuesName, Bool.or_eq_true] at h ⊢
  exact h.imp_left fun ha => Bool.or_eq_true_iff.mpr (.inl ha)

theorem Symbol.isQuote_of_mem_chars {s : Symbol} : ∀ c ∈ s.chars, isQuote c = false := by
  cases s <;> simp [Symbol.chars, isQuote]

namespace Shorthand.Quotation

def run (q : Quotation) (cs : List Char) : Quotation :=
  cs.foldl (fun q c => q.step c) q

variable {c : Char} {cs body rest s : List Char}

theorem run_cons (q : Quotation) : q.run (c :: cs) = (q.step c).run cs :=
  rfl

theorem run_append (q : Quotation) (a b : List Char) : q.run (a ++ b) = (q.run a).run b :=
  List.foldl_append

theorem step_outside (h : isQuote c = false) : outside.step c = outside := by
  simp [step, h]

theorem run_outside_cons (h : isQuote c = false) : outside.run (c :: cs) = outside.run cs := by
  rw [run_cons, step_outside h]

theorem run_outside_of_plain (h : ∀ c ∈ cs, isQuote c = false) : outside.run cs = outside := by
  induction cs with
  | nil => rfl
  | cons c cs ih => rw [run_outside_cons (h c (by simp)), ih fun d hd => h d (by simp [hd])]

theorem run_dropWhile {p : Char → Bool} (hp : ∀ c, p c = true → isQuote c = false)
    (cs : List Char) : outside.run (cs.dropWhile p) = outside.run cs := by
  induction cs with
  | nil => rfl
  | cons c cs ih =>
    rw [List.dropWhile_cons]
    split
    · next h => rw [ih, run_outside_cons (hp c h)]
    · rfl

theorem run_written {q : Char} (hq : isQuote q = true) (h : Written q body s) :
    (inside q).run (body ++ q :: rest) = outside.run rest := by
  induction h with
  | nil => simp [run_cons, step, isQuote_ne_backslash hq]
  | plain hb hc _ ih =>
    rw [List.cons_append, run_cons, step, if_neg hb, if_neg hc]
    exact ih
  | escaped _ ih => exact ih

/-- Only quotes open a quotation. -/
def Proper : Quotation → Prop
  | outside => True
  | inside q | escaped q => isQuote q = true

theorem Proper.step {q : Quotation} (h : q.Proper) (c : Char) : (q.step c).Proper := by
  cases q with
  | outside => by_cases hc : isQuote c <;> simp [Quotation.step, hc, Proper]
  | inside q =>
    simp only [Quotation.step]
    split
    · exact h
    · split
      · trivial
      · exact h
  | escaped q => exact h

theorem Proper.run {q : Quotation} (h : q.Proper) (cs : List Char) : (q.run cs).Proper := by
  induction cs generalizing q with
  | nil => exact h
  | cons c cs ih => exact ih (h.step c)

theorem run_outside_concat_iff (hc : isQuote c = false) :
    outside.run (cs ++ [c]) = outside ↔ outside.run cs = outside := by
  have hp : (outside.run cs).Proper := Proper.run (q := outside) trivial cs
  rw [run_append]
  generalize outside.run cs = r at hp
  cases r with
  | outside => exact iff_of_true (step_outside hc) rfl
  | inside q =>
    have hq : c ≠ q := fun h => Bool.false_ne_true (hc.symm.trans (h ▸ hp))
    refine iff_of_false (fun h => ?_) (fun h => by cases h)
    simp only [run_cons, step, if_neg hq] at h
    split at h <;> cases h
  | escaped q => exact iff_of_false (fun h => by cases h) (fun h => by cases h)

/-- A quotation that is closed later is read as one text. -/
theorem quoted_of_run {q : Char} (h : (inside q).run cs = outside) :
    ∃ s rest, Token.quoted q cs = some (s, rest) := by
  fun_induction Token.quoted q cs with
  | case1 => cases h
  | case2 c cs ih =>
    obtain ⟨s, rest, hs⟩ := ih h
    exact ⟨_, _, by rw [hs]; rfl⟩
  | case3 cs => exact ⟨_, _, rfl⟩
  | case4 c cs hb hne ih =>
    have hc : c ≠ '\\' := by
      rintro rfl
      cases cs with
      | nil => cases h
      | cons d cs => exact hb d cs rfl rfl
    rw [run_cons, step, if_neg hc, if_neg hne] at h
    obtain ⟨s, rest, hs⟩ := ih h
    exact ⟨_, _, by rw [hs]; rfl⟩

end Shorthand.Quotation

namespace Token

open Shorthand

variable {c : Char} {cs rest : List Char} {t : Token}

theorem fraction?_run {digits : List Char} (h : fraction? cs = some (digits, rest)) :
    Quotation.outside.run cs = Quotation.outside.run rest := by
  unfold fraction? at h
  split at h
  · next d cs =>
    split at h
    · next hd =>
      cases h
      rw [Quotation.run_outside_cons (by decide),
        Quotation.run_outside_cons (isQuote_of_isDigit hd),
        Quotation.run_dropWhile fun c => isQuote_of_isDigit]
    · cases h
  · cases h

theorem number_run {whole : List Char} (h : number whole cs = .ok (t, rest)) :
    Quotation.outside.run cs = Quotation.outside.run rest := by
  unfold number at h
  split at h
  · next hf =>
    cases h
    exact fraction?_run hf
  · split at h
    · cases h
      rfl
    · cases h

theorem symbol?_iff {s : Symbol} (h : symbol? cs = some (s, rest)) : cs = s.chars ++ rest := by
  obtain ⟨s', hs, hr⟩ := Option.map_eq_some_iff.mp h
  cases hr
  have hp : s.chars.isPrefixOf cs = true := by simpa using List.find?_some hs
  exact (List.prefix_iff_eq_append.mp (List.isPrefixOf_iff_prefix.mp hp)).symm

/-- No token but a text opens a quotation, and a text closes its own. -/
theorem next_run (h : next c cs = .ok (t, rest)) :
    Quotation.outside.run (c :: cs) = Quotation.outside.run rest := by
  unfold next at h
  split at h
  · next hc =>
    rw [← number_run h, Quotation.run_outside_cons (isQuote_of_isDigit hc),
      Quotation.run_dropWhile fun c => isQuote_of_isDigit]
  split at h
  · next hc =>
    cases h
    rw [Quotation.run_outside_cons (isQuote_of_continuesName (continuesName_of_startsName hc)),
      Quotation.run_dropWhile fun c => isQuote_of_continuesName]
  split at h
  · next hc =>
    split at h
    · next hq =>
      cases h
      have hc : isQuote c = true := isQuote_iff.mpr (by simpa using hc)
      obtain ⟨body, rfl, hw⟩ := (quoted_iff (isQuote_ne_backslash hc)).mp hq
      rw [Quotation.run_cons, Quotation.step, if_pos hc, Quotation.run_written hc hw]
    · cases h
  split at h
  · next hs =>
    cases h
    rw [symbol?_iff hs, Quotation.run_append,
      Quotation.run_outside_of_plain Symbol.isQuote_of_mem_chars]
  · cases h

theorem lex_run :
    ∀ {cs : List Char} {ts : List Token}, lex cs = .ok ts → Quotation.outside.run cs = .outside
  | [], _, _ => rfl
  | c :: cs, ts, h => by
    cases hb : isBlank c with
    | true =>
      rw [lex_blank hb] at h
      rw [Quotation.run_outside_cons (isQuote_of_isBlank hb)]
      exact lex_run h
    | false =>
      obtain ⟨t, rest, us, hn, hu, rfl⟩ := (lex_cons_ok hb).mp h
      have := next_length hn
      rw [next_run hn]
      exact lex_run hu
termination_by cs => cs.length

theorem fraction?_append (hr : EndsToken rest) :
    fraction? (cs ++ rest) = (fraction? cs).map fun r => (r.1, r.2 ++ rest) := by
  match cs with
  | [] => exact fraction?_end hr
  | [c] =>
    by_cases hc : c = '.'
    · subst hc
      cases rest with
      | nil => rfl
      | cons d rest => simp [fraction?, hr.not_digit d rfl]
    · simp [fraction?, hc]
  | c :: d :: cs =>
    by_cases hc : c = '.'
    · subst hc
      simp only [List.cons_append, fraction?]
      split
      · rw [takeWhile_append_stop hr.not_digit, dropWhile_append_stop hr.not_digit]
        rfl
      · rfl
    · simp [fraction?, hc]

theorem number_append {whole : List Char} (hr : EndsToken rest) :
    number whole (cs ++ rest) = (number whole cs).map fun r => (r.1, r.2 ++ rest) := by
  simp only [number, fraction?_append hr]
  cases fraction? cs with
  | some r => rfl
  | none => cases int64? (Nat.ofDigitChars 10 whole 0) <;> rfl

theorem isPrefixOf_append (s : Symbol) (hr : EndsToken rest) :
    s.chars.isPrefixOf (c :: cs ++ rest) = s.chars.isPrefixOf (c :: cs) := by
  cases cs with
  | nil =>
    cases rest with
    | nil => rfl
    | cons d rest =>
      obtain ⟨-, -, heq, hslash⟩ := hr d rfl
      cases s <;> simp [Symbol.chars, List.isPrefixOf, heq.symm, hslash.symm]
  | cons d cs => cases s <;> rfl

theorem symbol?_append (hr : EndsToken rest) :
    symbol? (c :: cs ++ rest) = (symbol? (c :: cs)).map fun r => (r.1, r.2 ++ rest) := by
  simp only [symbol?, isPrefixOf_append _ hr]
  cases hs : Symbol.all.find? fun s => s.chars.isPrefixOf (c :: cs) with
  | none => rfl
  | some s =>
    have hp : s.chars.isPrefixOf (c :: cs) = true := by simpa using List.find?_some hs
    have hle := (List.isPrefixOf_iff_prefix.mp hp).length_le
    simp only [Option.map_some, List.drop_append_of_le_length hle]

theorem next_append (hr : EndsToken rest) (hq : Quotation.outside.run (c :: cs) = .outside) :
    next c (cs ++ rest) = (next c cs).map fun r => (r.1, r.2 ++ rest) := by
  unfold next
  split
  · rw [takeWhile_append_stop hr.not_digit, dropWhile_append_stop hr.not_digit, number_append hr]
  split
  · rw [takeWhile_append_stop hr.not_name, dropWhile_append_stop hr.not_name]
    rfl
  split
  · next hc =>
    have hc : isQuote c = true := isQuote_iff.mpr (by simpa using hc)
    rw [Quotation.run_cons, Quotation.step, if_pos hc] at hq
    obtain ⟨s, after, hs⟩ := Quotation.quoted_of_run hq
    obtain ⟨body, rfl, hw⟩ := (quoted_iff (isQuote_ne_backslash hc)).mp hs
    have hs' : quoted c (body ++ c :: after ++ rest) = some (s, after ++ rest) :=
      (quoted_iff (isQuote_ne_backslash hc)).mpr ⟨body, by simp, hw⟩
    rw [hs, hs']
    rfl
  · rw [← List.cons_append, symbol?_append hr]
    cases symbol? (c :: cs) <;> rfl

/-- A text with its quotations closed is read by itself, before what follows. -/
theorem lex_append (hr : EndsToken rest) :
    ∀ {cs : List Char}, Quotation.outside.run cs = .outside →
      lex (cs ++ rest) = (lex cs).bind fun ts => ahead ts (lex rest)
  | [], _ => by rw [lex_nil]; exact ahead_nil.symm
  | c :: cs, h => by
    cases hb : isBlank c with
    | true =>
      rw [Quotation.run_outside_cons (isQuote_of_isBlank hb)] at h
      rw [List.cons_append, lex_blank hb, lex_blank hb]
      exact lex_append hr h
    | false =>
      have ha := next_append hr h
      cases hn : next c cs with
      | error e =>
        rw [hn] at ha
        rw [List.cons_append, lex_error hb ha, lex_error hb hn]
        rfl
      | ok r =>
        obtain ⟨t, after⟩ := r
        have := next_length hn
        rw [hn] at ha
        rw [next_run hn] at h
        rw [List.cons_append, lex_next hb ha, lex_next hb hn, lex_append hr h]
        cases lex after with
        | error e => rfl
        | ok us => exact ahead_ahead
termination_by cs => cs.length

end Token

end Narrative
