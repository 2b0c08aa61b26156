import Narrative.Proofs.Shorthand.Denotes

/-! The literal of a word reads as one tree, that of the value which the word denotes. -/

namespace Narrative.Shorthand

open Token

def signTree (negative : Bool) (p : Derivation .primary) : Derivation .unary :=
  if negative then .neg (.trailed p .bare) else .trailed p .bare

theorem lex_signed {negative : Bool} {cs rest : List Char} {p : Derivation .primary}
    (h : lex (cs ++ rest) = ahead p.tokens (lex rest)) :
    lex (signed negative cs ++ rest) = ahead (signTree negative p).tokens (lex rest) := by
  have ht : (Derivation.trailed p .bare).tokens = p.tokens := by simp [Derivation.tokens]
  cases negative with
  | false => rw [signTree, if_neg Bool.false_ne_true, ht]; exact h
  | true =>
    rw [signTree, if_pos rfl, Derivation.tokens, ht, signed, if_pos rfl, List.cons_append,
      lex_minus, h, ahead_ahead]
    rfl

theorem signTree_legal {negative : Bool} {p : Derivation .primary} (h : p.Legal) :
    (signTree negative p).Legal := by
  unfold signTree
  split
  · exact And.intro h trivial
  · exact And.intro h trivial

theorem int64?_ofDigits {n : Nat} (h : (n : Int) ≤ greatestWord) :
    int64? n = some (Int64.ofInt n) := by
  refine if_pos ⟨?_, h⟩
  unfold leastWord
  omega

theorem toInt_ofDigits {n : Nat} (h : (n : Int) ≤ greatestWord) : (Int64.ofInt n).toInt = n :=
  toInt_of_int64? (int64?_ofDigits h)

theorem toInt_neg_ofDigits {n : Nat} (h : (n : Int) ≤ greatestWord) :
    (-Int64.ofInt n).toInt = -(n : Int) := by
  rw [Int64.toInt_neg, toInt_ofDigits h]
  unfold greatestWord at h
  exact Int.bmod_eq_of_le_mul_two (by omega) (by omega)

theorem exists_denotes {w : List Char} (hq : StartsQuoted w → ∃ s, Quoted w s)
    (hfit : ∀ negative ds, Digits ds → w = signed negative ds →
      (Nat.ofDigitChars 10 ds 0 : Int) ≤ greatestWord) : ∃ v, Denotes w v := by
  by_cases hi : LooksInteger w
  · obtain ⟨negative, ds, hd, rfl⟩ := hi
    have hf := hfit negative ds hd rfl
    cases negative with
    | false => exact ⟨_, .int hd hf (toInt_ofDigits hf)⟩
    | true => exact ⟨_, .int hd hf (toInt_neg_ofDigits hf)⟩
  by_cases hd : LooksDecimal w
  · obtain ⟨negative, whole, frac, hw, hf, rfl⟩ := hd
    exact ⟨_, .float hw hf⟩
  by_cases hb : ∃ b, Spells w b
  · obtain ⟨b, hb⟩ := hb
    exact ⟨_, .bool hb⟩
  by_cases hs : StartsQuoted w
  · obtain ⟨s, hs⟩ := hq hs
    exact ⟨_, .quoted hs⟩
  · exact ⟨_, .bare hi hd (fun b h => hb ⟨b, h⟩) hs⟩

theorem lex_spelled (b : Bool) {rest : List Char} (hr : EndsArgument rest) :
    lex ((Flag.writeBool b).toList ++ rest) = ahead [.word (Flag.writeBool b)] (lex rest) := by
  cases b with
  | false => exact lex_word (c := 'f') (by decide) (List.all_eq_true.mp rfl) hr.endsToken.not_name
  | true => exact lex_word (c := 't') (by decide) (List.all_eq_true.mp rfl) hr.endsToken.not_name

theorem writeBool_mem_constants (b : Bool) : (Flag.writeBool b, Value.bool b) ∈ constants := by
  cases b <;> simp [constants, Flag.writeBool]

/-- A literal text reads as a tree of its own, whatever comes after the argument. -/
def ReadsAs (cs : List Char) (d : Derivation .unary) : Prop :=
  ∀ rest, EndsArgument rest → lex (cs ++ rest) = ahead d.tokens (lex rest)

theorem Denotes.reads {w : String} {v : Value} (h : Denotes w.toList v) :
    ∃ d : Derivation .unary, d.Legal ∧ d.value = .lit v ∧ ReadsAs (literal w).toList d := by
  generalize hw : w.toList = cs at h
  cases h with
  | @int negative ds n hd hfit hn =>
    have hl := literal_of_numeric (.inl ⟨negative, ds, hd, hw⟩)
    refine ⟨signTree negative (.int (Int64.ofInt (Nat.ofDigitChars 10 ds 0))),
      signTree_legal trivial, ?_,
      fun rest hr => ?_⟩
    · cases negative with
      | false =>
        have he := Int64.toInt_inj.mp ((toInt_ofDigits hfit).trans hn.symm)
        rw [← he]
        rfl
      | true =>
        have he := Int64.toInt_inj.mp ((toInt_neg_ofDigits hfit).trans hn.symm)
        rw [← he]
        rfl
    · rw [hl, hw]
      exact lex_signed (lex_int hd hr.endsToken (int64?_ofDigits hfit))
  | @float negative whole frac hwhole hfrac =>
    have hl := literal_of_numeric (.inr ⟨negative, whole, frac, hwhole, hfrac, hw⟩)
    refine ⟨signTree negative (.float (readFloat whole frac 0)), signTree_legal trivial, ?_,
      fun rest hr => ?_⟩
    · cases negative <;> rfl
    · rw [hl, hw]
      exact lex_signed (lex_decimal hwhole hfrac hr.endsToken.not_digit)
  | @bool _ b hb =>
    subst hw
    have hl := literal_of_spells hb
    refine ⟨.trailed (.constant (Flag.writeBool b) (.bool b) (writeBool_mem_constants b)) .bare,
      And.intro trivial trivial, rfl, fun rest hr => ?_⟩
    rw [hl]
    exact lex_spelled b hr
  | @quoted _ s hq =>
    subst hw
    have hl := literal_of_startsQuoted hq.startsQuoted
    obtain ⟨q, body, hq, hb, hw⟩ := hq
    refine ⟨.trailed (.text (String.ofList s)) .bare, And.intro trivial trivial, rfl,
      fun rest hr => ?_⟩
    rw [hl, hw, List.cons_append, List.append_assoc]
    exact lex_quoted (isQuote_iff.mp hq) hb
  | bare hi hd hb hq =>
    subst hw
    have hl := literal_of_bare (fun h => h.elim hi hd) hb hq
    refine ⟨.trailed (.text w) .bare, And.intro trivial trivial, by rw [String.ofList_toList]; rfl,
      fun rest hr => ?_⟩
    rw [hl, List.cons_append, List.append_assoc]
    have h : lex ('\'' :: (w.toList.flatMap escape ++ '\'' :: rest)) = _ :=
      lex_quoted (.inl rfl) (written_escape w.toList)
    rwa [String.ofList_toList] at h

end Narrative.Shorthand
