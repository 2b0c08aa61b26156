import Narrative.Expr.Token

/-! Reading tokens one at a time, and what each kind of word reads as when something follows that
cannot belong to it. -/

namespace Narrative

theorem isBlank_eq_false {c : Char} (h : 33 ≤ c.toNat) (h' : c.toNat ≤ 126) :
    isBlank c = false := by
  simp [isBlank, blankRanges]
  omega

theorem isBlank_of_isDigit {c : Char} (h : c.isDigit) : isBlank c = false := by
  obtain ⟨hl, hu⟩ := Char.isDigit_iff_toNat.mp h
  exact isBlank_eq_false (Nat.le_trans (by decide) hl) (Nat.le_trans hu (by decide))

theorem toNat_of_isAlpha {c : Char} (h : c.isAlpha) : 65 ≤ c.toNat ∧ c.toNat ≤ 122 := by
  have h : (c.isUpper || c.isLower) = true := h
  rcases Bool.or_eq_true_iff.mp h with h | h
  · obtain ⟨hl, hu⟩ : 65 ≤ c.val ∧ c.val ≤ 90 := of_decide_eq_true h
    exact ⟨UInt32.le_iff_toNat_le.mp hl, Nat.le_trans (UInt32.le_iff_toNat_le.mp hu) (by decide)⟩
  · have h : (decide (97 ≤ c.val) && decide (c.val ≤ 122)) = true := h
    obtain ⟨hl, hu⟩ := Bool.and_eq_true_iff.mp h
    exact ⟨Nat.le_trans (by decide) (UInt32.le_iff_toNat_le.mp (of_decide_eq_true hl)),
      UInt32.le_iff_toNat_le.mp (of_decide_eq_true hu)⟩

theorem isBlank_of_startsName {c : Char} (h : startsName c) : isBlank c = false := by
  simp only [startsName, Bool.or_eq_true, decide_eq_true_eq] at h
  rcases h with h | rfl
  · obtain ⟨hl, hu⟩ := toNat_of_isAlpha h
    exact isBlank_eq_false (Nat.le_trans (by decide) hl) (Nat.le_trans hu (by decide))
  · decide

theorem isBlank_of_continuesName {c : Char} (h : continuesName c) : isBlank c = false := by
  simp only [continuesName, Char.isAlphanum, Bool.or_eq_true, decide_eq_true_eq] at h
  rcases h with (h | h) | h
  · exact isBlank_of_startsName (by simp [startsName, h])
  · exact isBlank_of_isDigit h
  · exact isBlank_of_startsName (by simp [startsName, h])

theorem not_isDigit_of_startsName {c : Char} (h : startsName c) : c.isDigit = false := by
  simp only [startsName, Bool.or_eq_true, decide_eq_true_eq] at h
  rcases h with h | rfl
  · have hl := (toNat_of_isAlpha h).1
    refine Bool.eq_false_iff.mpr fun hd => ?_
    have hu : c.toNat ≤ 57 := (Char.isDigit_iff_toNat.mp hd).2
    omega
  · decide

section Runs

variable {α : Type} {p : α → Bool} {as bs : List α} {b : α}

theorem takeWhile_stop (hb : ∀ b, bs.head? = some b → p b = false) : bs.takeWhile p = [] := by
  cases bs with
  | nil => rfl
  | cons b bs => simp [hb b rfl]

theorem dropWhile_stop (hb : ∀ b, bs.head? = some b → p b = false) : bs.dropWhile p = bs := by
  cases bs with
  | nil => rfl
  | cons b bs => simp [hb b rfl]

/-- What begins with no element of a class takes no part in a run of the class before it. -/
theorem takeWhile_append_stop (hb : ∀ b, bs.head? = some b → p b = false) :
    (as ++ bs).takeWhile p = as.takeWhile p := by
  induction as with
  | nil => exact takeWhile_stop hb
  | cons a as ih => simp only [List.cons_append, List.takeWhile_cons, ih]

theorem dropWhile_append_stop (hb : ∀ b, bs.head? = some b → p b = false) :
    (as ++ bs).dropWhile p = as.dropWhile p ++ bs := by
  induction as with
  | nil => exact dropWhile_stop hb
  | cons a as ih =>
    simp only [List.cons_append, List.dropWhile_cons, ih]
    split <;> rfl

theorem takeWhile_append_all (ha : ∀ a ∈ as, p a) (hb : ∀ b, bs.head? = some b → p b = false) :
    (as ++ bs).takeWhile p = as := by
  rw [List.takeWhile_append_of_pos ha, takeWhile_stop hb, List.append_nil]

theorem dropWhile_append_all (ha : ∀ a ∈ as, p a) (hb : ∀ b, bs.head? = some b → p b = false) :
    (as ++ bs).dropWhile p = bs := by
  rw [List.dropWhile_append_of_pos ha, dropWhile_stop hb]

theorem takeWhile_all (ha : ∀ a ∈ as, p a) : as.takeWhile p = as := by
  simpa using @takeWhile_append_all _ p as [] ha nofun

theorem dropWhile_all (ha : ∀ a ∈ as, p a) : as.dropWhile p = [] := by
  simpa using @dropWhile_append_all _ p as [] ha nofun

theorem takeWhile_append_cons (ha : ∀ a ∈ as, p a) (hb : p b = false) :
    (as ++ b :: bs).takeWhile p = as :=
  takeWhile_append_all ha (by simpa using hb)

theorem dropWhile_append_cons (ha : ∀ a ∈ as, p a) (hb : p b = false) :
    (as ++ b :: bs).dropWhile p = b :: bs :=
  dropWhile_append_all ha (by simpa using hb)

end Runs

def Digits (ds : List Char) : Prop :=
  ds ≠ [] ∧ ∀ c ∈ ds, c.isDigit

theorem Digits.not_mem {ds : List Char} {c : Char} (h : Digits ds)
    (hc : c.isDigit = false) : c ∉ ds :=
  fun hm => by simp [h.2 c hm] at hc

theorem Digits.head?_ne {ds : List Char} {c : Char} (h : Digits ds) (hc : c.isDigit = false) :
    ds.head? ≠ some c :=
  fun he => h.not_mem hc (List.mem_of_head? he)

theorem Digits.point_head? {ds frac : List Char} (h : Digits ds) :
    (ds ++ '.' :: frac).head? ≠ some '-' := by
  obtain ⟨c, cs, rfl⟩ := List.exists_cons_of_ne_nil h.1
  exact h.head?_ne (c := '-') (by decide)

theorem Digits.point_injective {ds ds' frac frac' : List Char} (h : Digits ds) (h' : Digits ds')
    (he : ds ++ '.' :: frac = ds' ++ '.' :: frac') : ds = ds' ∧ frac = frac' := by
  have ht := congrArg (List.takeWhile Char.isDigit) he
  rw [takeWhile_append_cons h.2 (by decide), takeWhile_append_cons h'.2 (by decide)] at ht
  subst ht
  exact ⟨rfl, (List.cons.inj (List.append_cancel_left he)).2⟩

/-- Between quotes `q`, the text `body` says `s`. -/
inductive Written (q : Char) : List Char → List Char → Prop where
  | nil : Written q [] []
  | plain {c : Char} {body s : List Char} (hb : c ≠ '\\') (hq : c ≠ q) (h : Written q body s) :
      Written q (c :: body) (c :: s)
  | escaped {c : Char} {body s : List Char} (h : Written q body s) :
      Written q ('\\' :: c :: body) (Token.unescape c :: s)

/-- The text is at its end, or goes on with a character that no token before it takes in. -/
def EndsToken (cs : List Char) : Prop :=
  ∀ d, cs.head? = some d → continuesName d = false ∧ d ≠ '.' ∧ d ≠ '=' ∧ d ≠ '/'

namespace EndsToken

variable {c : Char} {rest : List Char}

theorem nil : EndsToken [] :=
  nofun

theorem cons (h : continuesName c = false ∧ c ≠ '.' ∧ c ≠ '=' ∧ c ≠ '/') (cs : List Char) :
    EndsToken (c :: cs) := by
  rintro d hd
  cases hd
  exact h

theorem not_name (h : EndsToken rest) : ∀ d, rest.head? = some d → continuesName d = false :=
  fun d hd => (h d hd).1

theorem not_digit (h : EndsToken rest) : ∀ d, rest.head? = some d → d.isDigit = false := by
  intro d hd
  have hname := h.not_name d hd
  simp only [continuesName, Char.isAlphanum, Bool.or_eq_false_iff] at hname
  exact hname.1.2

end EndsToken

inductive EndsArgument : List Char → Prop where
  | comma (cs : List Char) : EndsArgument (',' :: cs)
  | close (cs : List Char) : EndsArgument (')' :: cs)

theorem EndsArgument.endsToken {rest : List Char} (h : EndsArgument rest) : EndsToken rest := by
  cases h <;> exact .cons (by decide) _

namespace Token

variable {c : Char} {cs rest : List Char} {t : Token} {ts us : List Token}

def ahead (ts : List Token) (x : Except ParseError (List Token)) : Except ParseError (List Token) :=
  x.map (ts ++ ·)

theorem ahead_ok : ahead ts (.ok us) = .ok (ts ++ us) :=
  rfl

theorem ahead_nil {x : Except ParseError (List Token)} : ahead [] x = x := by
  cases x <;> rfl

theorem ahead_ahead {x : Except ParseError (List Token)} :
    ahead ts (ahead us x) = ahead (ts ++ us) x := by
  cases x with
  | error e => rfl
  | ok vs => simp [ahead, Except.map]

theorem ahead_eq_ok {x : Except ParseError (List Token)} {vs : List Token} :
    ahead ts x = .ok vs ↔ ∃ us, x = .ok us ∧ vs = ts ++ us := by
  cases x <;> simp [ahead, Except.map, eq_comm]

theorem lex_nil : lex [] = .ok [] := by
  rw [lex]

theorem lex_blank (h : isBlank c = true) : lex (c :: cs) = lex cs := by
  rw [lex, if_pos h]

theorem lex_next (hb : isBlank c = false) (h : next c cs = .ok (t, rest)) :
    lex (c :: cs) = ahead [t] (lex rest) := by
  rw [lex, if_neg (by simp [hb])]
  split
  · next h' => rw [h] at h'; cases h'
  · next h' =>
    rw [h] at h'
    cases h'
    cases lex rest <;> rfl

theorem lex_error {e : ParseError} (hb : isBlank c = false) (h : next c cs = .error e) :
    lex (c :: cs) = .error e := by
  rw [lex, if_neg (by simp [hb])]
  split
  · next h' => rw [h] at h'; cases h'; rfl
  · next h' => rw [h] at h'; cases h'

theorem lex_cons_ok (hb : isBlank c = false) :
    lex (c :: cs) = .ok ts ↔
      ∃ t rest us, next c cs = .ok (t, rest) ∧ lex rest = .ok us ∧ ts = t :: us := by
  constructor
  · intro h
    cases hn : next c cs with
    | error e => rw [lex_error hb hn] at h; cases h
    | ok r =>
      obtain ⟨t, rest⟩ := r
      rw [lex_next hb hn] at h
      obtain ⟨us, hu, rfl⟩ := ahead_eq_ok.mp h
      exact ⟨t, rest, us, rfl, hu, rfl⟩
  · rintro ⟨t, rest, us, hn, hu, rfl⟩
    rw [lex_next hb hn, hu]
    rfl

theorem lex_minus : lex ('-' :: cs) = ahead [.symbol .minus] (lex cs) :=
  lex_next (by decide) rfl

theorem lex_lparen : lex ('(' :: cs) = ahead [.symbol .lparen] (lex cs) :=
  lex_next (by decide) rfl

theorem lex_rparen : lex (')' :: cs) = ahead [.symbol .rparen] (lex cs) :=
  lex_next (by decide) rfl

theorem lex_comma : lex (',' :: cs) = ahead [.symbol .comma] (lex cs) :=
  lex_next (by decide) rfl

theorem lex_dot : lex ('.' :: cs) = ahead [.symbol .dot] (lex cs) :=
  lex_next (by decide) rfl

theorem lex_word {w : List Char} (hc : startsName c) (hw : ∀ a ∈ w, continuesName a)
    (hr : ∀ d, rest.head? = some d → continuesName d = false) :
    lex (c :: w ++ rest) = ahead [.word (String.ofList (c :: w))] (lex rest) := by
  rw [List.cons_append]
  refine lex_next (isBlank_of_startsName hc) ?_
  rw [next, if_neg (by simp [not_isDigit_of_startsName hc]), if_pos hc,
    takeWhile_append_all hw hr, dropWhile_append_all hw hr]

theorem lex_name {w : String} (hw : isIdentifier w = true)
    (hr : ∀ d, rest.head? = some d → continuesName d = false) :
    lex (w.toList ++ rest) = ahead [.word w] (lex rest) := by
  unfold isIdentifier at hw
  split at hw
  · cases hw
  · next c cs hcs =>
    obtain ⟨hc, hall⟩ := Bool.and_eq_true_iff.mp hw
    rw [hcs, lex_word hc (List.all_eq_true.mp hall) hr, ← hcs, String.ofList_toList]

theorem next_digits {ds : List Char} (hc : c.isDigit) (hds : ∀ a ∈ ds, a.isDigit)
    (hr : ∀ d, rest.head? = some d → d.isDigit = false) :
      next c (ds ++ rest) = number (c :: ds) rest := by
  rw [next, if_pos hc, takeWhile_append_all hds hr, dropWhile_append_all hds hr]

theorem lex_number {ds : List Char} {r : Except ParseError (Token × List Char)} (hds : Digits ds)
    (hr : ∀ d, rest.head? = some d → d.isDigit = false) (hn : number ds rest = r) :
    lex (ds ++ rest) = r.bind fun r => ahead [r.1] (lex r.2) := by
  obtain ⟨hne, hds⟩ := hds
  obtain ⟨c, ds, rfl⟩ := List.exists_cons_of_ne_nil hne
  have hc := hds c (by simp)
  have hn : next c (ds ++ rest) = r :=
    (next_digits hc (fun a ha => hds a (List.mem_cons_of_mem c ha)) hr).trans hn
  cases r with
  | error e => exact lex_error (isBlank_of_isDigit hc) hn
  | ok r => exact lex_next (isBlank_of_isDigit hc) hn

theorem fraction?_end (hr : EndsToken rest) : fraction? rest = none := by
  cases rest with
  | nil => rfl
  | cons d ds => simp [fraction?, (hr d rfl).2.1]

theorem lex_whole {ds : List Char} {n : Int64} (hd : Digits ds)
    (hr : ∀ d, rest.head? = some d → d.isDigit = false) (hf : fraction? rest = none)
    (hn : int64? (Nat.ofDigitChars 10 ds 0) = some n) :
    lex (ds ++ rest) = ahead [.int n] (lex rest) := by
  have h : number ds rest = .ok (.int n, rest) := by
    simp only [number, hf, hn]
  rw [lex_number hd hr h]
  rfl

theorem lex_int {ds : List Char} {n : Int64} (hd : Digits ds) (hr : EndsToken rest)
    (hn : int64? (Nat.ofDigitChars 10 ds 0) = some n) :
    lex (ds ++ rest) = ahead [.int n] (lex rest) :=
  lex_whole hd hr.not_digit (fraction?_end hr) hn

theorem lex_large {ds : List Char} (hd : Digits ds) (hr : EndsToken rest)
    (hn : int64? (Nat.ofDigitChars 10 ds 0) = none) : lex (ds ++ rest) = .error .largeNumber := by
  have h : number ds rest = .error .largeNumber := by
    simp only [number, fraction?_end hr, hn]
  rw [lex_number hd hr.not_digit h]
  rfl

theorem lex_decimal {whole frac : List Char} (hw : Digits whole) (hf : Digits frac)
    (hr : ∀ d, rest.head? = some d → d.isDigit = false) :
    lex (whole ++ '.' :: frac ++ rest) = ahead [.float (readFloat whole frac 0)] (lex rest) := by
  have hfrac : fraction? ('.' :: (frac ++ rest)) = some (frac, rest) := by
    obtain ⟨hne, hf⟩ := hf
    obtain ⟨d, ds, rfl⟩ := List.exists_cons_of_ne_nil hne
    have hd := hf d (by simp)
    have hds : ∀ a ∈ ds, a.isDigit := fun a ha => hf a (by simp [ha])
    rw [List.cons_append, fraction?, if_pos hd, takeWhile_append_all hds hr,
      dropWhile_append_all hds hr]
  have h : number whole ('.' :: (frac ++ rest)) = .ok (.float (readFloat whole frac 0), rest) := by
    simp only [number, hfrac]
  rw [List.append_assoc, List.cons_append, lex_number hw (by simp) h]
  rfl

theorem quoted_iff {q : Char} {s : List Char} (hq : q ≠ '\\') :
    quoted q cs = some (s, rest) ↔ ∃ body, cs = body ++ q :: rest ∧ Written q body s := by
  constructor
  · intro h
    fun_induction quoted q cs generalizing s rest with
    | case1 => cases h
    | case2 c cs ih =>
      obtain ⟨⟨s', r'⟩, hs, hr⟩ := Option.map_eq_some_iff.mp h
      cases hr
      obtain ⟨body, rfl, hw⟩ := ih hs
      exact ⟨'\\' :: c :: body, rfl, .escaped hw⟩
    | case3 cs =>
      cases h
      exact ⟨[], rfl, .nil⟩
    | case4 c cs hb hne ih =>
      obtain ⟨⟨s', r'⟩, hs, hr⟩ := Option.map_eq_some_iff.mp h
      cases hr
      obtain ⟨body, rfl, hw⟩ := ih hs
      refine ⟨c :: body, rfl, .plain ?_ hne hw⟩
      rintro rfl
      cases body with
      | nil => exact hb _ _ rfl rfl
      | cons d body => exact hb _ _ rfl rfl
  · rintro ⟨body, rfl, hw⟩
    induction hw with
    | nil => simp [quoted, hq]
    | @plain c body s hb hne _ ih =>
      rw [List.cons_append, quoted, if_neg hne, ih]
      · rfl
      · intro d ds h _
        exact absurd h hb
    | escaped _ ih => simp [quoted, ih]

theorem lex_quoted {q : Char} {body s : List Char} (hq : q = '\'' ∨ q = '"')
    (h : Written q body s) :
    lex (q :: (body ++ q :: rest)) = ahead [.text (String.ofList s)] (lex rest) := by
  have hne : q ≠ '\\' := by rintro rfl; simp at hq
  have hr : quoted q (body ++ q :: rest) = some (s, rest) := (quoted_iff hne).mpr ⟨body, rfl, h⟩
  rcases hq with rfl | rfl <;>
    exact lex_next (by decide) (by simp [next, startsName, hr])

end Token

end Narrative
