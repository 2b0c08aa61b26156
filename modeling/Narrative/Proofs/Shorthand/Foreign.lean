import Narrative.Proofs.Expr.Adjacent
import Narrative.Proofs.Shorthand.Denotes

/-! Shorthand for verbs that do not exist. A text is read word by word, and a name with numbers,
quoted texts and names after it is no expression, unless all that follows can be subtracted. -/

namespace Narrative.Shorthand

open Quotation Token

def lexAll (ws : List String) : Except ParseError (List Token) :=
  ws.foldr (fun w rest => (lex w.toList).bind fun ts => ahead ts rest) (.ok [])

theorem endsToken_blank {c : Char} (h : isBlank c = true) (cs : List Char) :
    EndsToken (c :: cs) := by
  refine .cons ⟨?_, ?_, ?_, ?_⟩ cs
  · exact Bool.eq_false_iff.mpr fun hname =>
      Bool.false_ne_true ((isBlank_of_continuesName hname).symm.trans h)
  all_goals rintro rfl; exact absurd h (by decide)

theorem lexAll_wordsFrom {word : List Char} {q : Quotation} {cs : List Char}
    (h : outside.run word.reverse = q) :
    lexAll ((wordsFrom word q cs).map String.ofList) = lex (word.reverse ++ cs) := by
  fun_induction wordsFrom word q cs with
  | case1 word q hw =>
    obtain rfl := List.isEmpty_iff.mp hw
    exact lex_nil.symm
  | case2 word q hw =>
    simp only [List.map_cons, List.map_nil, lexAll, List.foldr_cons, List.foldr_nil,
      String.toList_ofList, List.append_nil]
    cases lex word.reverse <;> simp [Except.bind, ahead, Except.map]
  | case3 word q c cs hb hw ih =>
    obtain rfl := List.isEmpty_iff.mp hw
    rw [ih rfl]
    exact (lex_blank (Bool.and_eq_true_iff.mp hb).2).symm
  | case4 word q c cs hb hw ih =>
    obtain ⟨rfl, hb⟩ : q = outside ∧ isBlank c = true := by simpa using hb
    have ih := ih rfl
    rw [lex_append (endsToken_blank hb cs) h, lex_blank hb]
    simp only [List.map_cons, lexAll, List.foldr_cons, String.toList_ofList]
    exact congrArg _ (funext fun ts => congrArg _ ih)
  | case5 word q c cs hb ih =>
    rw [ih (by rw [List.reverse_cons, run_append, h]; rfl), List.reverse_cons, List.append_assoc]
    rfl

/-- Blanks outside quotations part tokens, so a text is read word by word. -/
theorem lexAll_words (s : String) : lexAll (words s) = lex s.toList :=
  lexAll_wordsFrom rfl

inductive Datum (w : String) : Prop where
  | integer (h : LooksInteger w.toList)
  | decimal (h : LooksDecimal w.toList)
  | quoted {s : List Char} (h : Quoted w.toList s)
  | name (h : isName w = true)

/-- The word is a sign and a number that is not too large, so that behind a value it is a
subtraction. -/
def Subtracts (w : String) : Prop :=
  ∃ ds, w.toList = '-' :: ds ∧ (LooksDecimal ds ∨ (Nat.ofDigitChars 10 ds 0 : Int) ≤ greatestWord)

/-- The text cannot be read, or it reads as one operand. -/
def ReadsOperand (cs : List Char) : Prop :=
  ∀ ts, lex cs = .ok ts → ∃ t, t.isOperand = true ∧ ts = [t]

theorem ReadsOperand.of_lex {cs : List Char} {t : Token} (ht : t.isOperand = true)
    (h : lex cs = .ok [t]) : ReadsOperand cs := by
  intro ts hts
  rw [h] at hts
  exact ⟨t, ht, (Except.ok.inj hts).symm⟩

theorem readsOperand_int {ds : List Char} (h : Digits ds) : ReadsOperand ds := by
  intro ts hts
  rw [← ds.append_nil] at hts
  cases hn : int64? (Nat.ofDigitChars 10 ds 0) with
  | none =>
    rw [lex_large h .nil hn] at hts
    cases hts
  | some n =>
    rw [lex_int h .nil hn, lex_nil] at hts
    exact ⟨.int n, rfl, (Except.ok.inj hts).symm⟩

theorem lex_decimal_alone {whole frac : List Char} (hw : Digits whole) (hf : Digits frac) :
    lex (whole ++ '.' :: frac) = .ok [.float (readFloat whole frac 0)] := by
  have h := lex_decimal hw hf EndsToken.nil.not_digit
  rwa [List.append_nil, lex_nil] at h

/-- What a datum reads as if it can be read: an operand, behind a sign if the word subtracts. -/
theorem Datum.lexed {w : String} (h : Datum w) {ts : List Token} (hts : lex w.toList = .ok ts) :
    ∃ t, t.isOperand = true ∧ (ts = [t] ∨ ts = [.symbol .minus, t] ∧ Subtracts w) := by
  -- Only numbers can have a sign; it is read as a token of its own.
  have signed_lexed {negative : Bool} {cs : List Char} (hw : w.toList = signed negative cs)
      (hcs : ReadsOperand cs)
      (hfit : ∀ us, lex cs = .ok us → LooksDecimal cs ∨
        (Nat.ofDigitChars 10 cs 0 : Int) ≤ greatestWord) :
      ∃ t, t.isOperand = true ∧ (ts = [t] ∨ ts = [.symbol .minus, t] ∧ Subtracts w) := by
    rw [hw] at hts
    cases negative with
    | false =>
      obtain ⟨t, ht, rfl⟩ := hcs ts hts
      exact ⟨t, ht, .inl rfl⟩
    | true =>
      obtain ⟨us, hus, rfl⟩ := ahead_eq_ok.mp (lex_minus.symm.trans hts)
      obtain ⟨t, ht, rfl⟩ := hcs us hus
      exact ⟨t, ht, .inr ⟨rfl, cs, hw, hfit _ hus⟩⟩
  cases h with
  | integer h =>
    obtain ⟨negative, ds, hd, hw⟩ := h
    refine signed_lexed hw (readsOperand_int hd) fun us hus => .inr ?_
    by_contra hlarge
    have hn : int64? (Nat.ofDigitChars 10 ds 0) = none := if_neg fun hle => hlarge hle.2
    rw [← ds.append_nil, lex_large hd .nil hn] at hus
    cases hus
  | decimal h =>
    obtain ⟨negative, whole, frac, hwhole, hfrac, hw⟩ := h
    exact signed_lexed hw (.of_lex rfl (lex_decimal_alone hwhole hfrac)) fun _ _ =>
      .inl ⟨false, whole, frac, hwhole, hfrac, rfl⟩
  | @quoted s h =>
    obtain ⟨q, body, hq, hbody, hw⟩ := h
    have hlex : lex w.toList = .ok [.text (String.ofList s)] := by
      rw [hw, lex_quoted (isQuote_iff.mp hq) hbody, lex_nil]
      rfl
    obtain ⟨t, ht, rfl⟩ := ReadsOperand.of_lex rfl hlex ts hts
    exact ⟨t, ht, .inl rfl⟩
  | name h =>
    have hlex := lex_name (Bool.and_eq_true_iff.mp h).1 EndsToken.nil.not_name
    rw [List.append_nil, lex_nil] at hlex
    have hkeyword : isKeyword w = false := by simpa using (Bool.and_eq_true_iff.mp h).2
    obtain ⟨t, ht, rfl⟩ := ReadsOperand.of_lex (by simp [isOperand, hkeyword]) hlex ts hts
    exact ⟨t, ht, .inl rfl⟩

/-- Of data behind an operand, all subtract, or two operands stand side by side. -/
theorem not_apart_of_lexAll {ws : List String} (hws : ∀ w ∈ ws, Datum w)
    (hadd : ∃ w ∈ ws, ¬ Subtracts w) {ts : List Token} (hts : lexAll ws = .ok ts) {t : Token}
    (ht : t.isOperand = true) : ¬ Apart (t :: ts) := by
  induction ws generalizing t ts with
  | nil => simp at hadd
  | cons w ws ih =>
    rw [lexAll, List.foldr_cons] at hts
    cases hw : lex w.toList with
    | error e => rw [hw] at hts; cases hts
    | ok us =>
      rw [hw] at hts
      obtain ⟨vs, hvs, rfl⟩ := ahead_eq_ok.mp hts
      obtain ⟨u, hu, rfl | ⟨rfl, hsub⟩⟩ := (hws w List.mem_cons_self).lexed hw
      · exact Apart.not_cons_cons ht hu
      · have hadd : ∃ w ∈ ws, ¬ Subtracts w := by
          obtain ⟨x, hx, hnot⟩ := hadd
          exact ⟨x, (List.mem_cons.mp hx).resolve_left fun he => hnot (he ▸ hsub), hnot⟩
        exact fun h => ih (fun x hx => hws x (List.mem_cons_of_mem w hx)) hadd hvs hu h.tail.tail

/-- A name with data behind it is no expression, unless all the data can be subtracted. -/
theorem parse_words_error {content head : String} {args : List String}
    (hwords : words content = head :: args) (hhead : isName head = true)
    (hargs : ∀ w ∈ args, Datum w) (hadd : ∃ w ∈ args, ¬ Subtracts w) :
    ∃ e, Expr.parse content = .error e := by
  cases hp : Expr.parse content with
  | error e => exact ⟨e, rfl⟩
  | ok e =>
    obtain ⟨ts, hlex, hts⟩ := bind_eq_ok.mp hp
    have hname := lex_name (Bool.and_eq_true_iff.mp hhead).1 EndsToken.nil.not_name
    rw [List.append_nil, lex_nil] at hname
    rw [← lexAll_words, hwords, lexAll, List.foldr_cons, hname] at hlex
    obtain ⟨us, hus, rfl⟩ := ahead_eq_ok.mp hlex
    have hkeyword : isKeyword head = false := by simpa using (Bool.and_eq_true_iff.mp hhead).2
    exact absurd (Expr.apart_of_ofTokens hts)
      (not_apart_of_lexAll hargs hadd hus (by simp [isOperand, hkeyword]))

theorem Datum.kinds {w : String} (h : Datum w) :
    isNumeric w.toList = true ∨ StartsQuoted w.toList ∨ isName w = true := by
  cases h with
  | integer h => exact .inl (isNumeric_of_looksInteger h)
  | decimal h => exact .inl (isNumeric_of_looksDecimal h)
  | quoted h => exact .inr (.inl h.startsQuoted)
  | name h => exact .inr (.inr h)

theorem Datum.not_reserved {w : String} (h : Datum w) : (isKeyword w || isOperator w) = false := by
  have hreserved : ∀ r ∈ keywords ++ ["+", "-", "*", "/", "//", "%", "~", "==", "!=", "<",
    "<=", ">", ">="],
      isNumeric r.toList = false ∧ r.toList.head?.any isQuote = false ∧ isName r = false := by
    decide +kernel
  refine Bool.eq_false_iff.mpr fun hw => ?_
  have hmem : w ∈ keywords ++ ["+", "-", "*", "/", "//", "%", "~", "==", "!=", "<", "<=",
      ">", ">="] := by
    simpa [isKeyword, isOperator] using hw
  obtain ⟨hnumeric, hquote, hname⟩ := hreserved w hmem
  rcases h.kinds with h | h | h
  · exact Bool.false_ne_true (hnumeric.symm.trans h)
  · exact Bool.false_ne_true (hquote.symm.trans h)
  · exact Bool.false_ne_true (hname.symm.trans h)

theorem Datum.head?_ne {w : String} (h : Datum w) : w.toList.head? ≠ some '(' := by
  intro hhead
  obtain ⟨cs, hw⟩ := List.head?_eq_some_iff.mp hhead
  rcases h.kinds with h | h | h
  · obtain ⟨c, ds, hc, hsign⟩ := looksNumeric_head (isNumeric_iff.mp h)
    obtain rfl : '(' = c := (List.cons.inj (hw.symm.trans hc)).1
    rcases hsign with hsign | hsign <;> exact absurd hsign (by decide)
  · rw [StartsQuoted, hw] at h
    exact absurd h (by simp [isQuote])
  · have hstart : startsName '(' = true := by
      have hidentifier := (Bool.and_eq_true_iff.mp h).1
      rw [isIdentifier, hw] at hidentifier
      exact (Bool.and_eq_true_iff.mp hidentifier).1
    exact absurd hstart (by decide)

theorem hasForm_of_data {content head : String} {args : List String}
    (hwords : words content = head :: args) (hhead : isName head = true) (hne : args ≠ [])
    (hargs : ∀ w ∈ args, Datum w) : hasForm content = true := by
  have hopen : (args.head?.any fun w => w.toList.head? = some '(') = false := by
    cases args with
    | nil => rfl
    | cons w ws => simpa using (hargs w List.mem_cons_self).head?_ne
  have hreserved : (args.any fun w => isKeyword w || isOperator w) = false :=
    List.any_eq_false.mpr fun w hw => by rw [(hargs w hw).not_reserved]; exact Bool.false_ne_true
  have hsome : args.isEmpty = false := by simpa using hne
  simp only [hasForm, hwords, hhead, hsome, hopen, hreserved]
  rfl

end Narrative.Shorthand
