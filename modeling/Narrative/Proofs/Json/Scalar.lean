import Narrative.Json.Reader
import Narrative.Json.Writer
import Narrative.Proofs.Number.Digits

/-! Texts and whole numbers of documents are read back from what is written for them. -/

namespace Narrative.Json

variable {rest : List Char}

section Quoted

theorem hexValue?_hexDigit {n : Nat} (h : n < 16) : hexValue? (hexDigit n) = some n := by
  have hall : ∀ m < 16, hexValue? (hexDigit m) = some m := by decide
  exact hall n h

theorem quoted_code {a b c d : Char} {n : Nat} (hn : hexNumber? [a, b, c, d] = some n)
    (hlow : n < 0xd800) : quoted ('\\' :: 'u' :: a :: b :: c :: d :: rest)
      = (quoted rest).map fun r => (Char.ofNat n :: r.1, r.2) := by
  have hhigh : isHighHalf n = false := by
    simp only [isHighHalf, Bool.and_eq_false_iff, decide_eq_false_iff_not]
    omega
  have hhalf : isLowHalf n = false := by
    simp only [isLowHalf, Bool.and_eq_false_iff, decide_eq_false_iff_not]
    omega
  rw [quoted.eq_def, Option.map_eq_bind]
  split
  · next he => cases he
  · next he => cases he
  · next he =>
    cases he
    simp only [hn, Option.bind_eq_bind, Option.bind_some, hhigh, hhalf]
    rfl
  · next he =>
    cases he
    simp only [hn, Option.bind_eq_bind, Option.bind_some, hhigh, hhalf, Bool.or_self]
    rfl
  · next hnone he =>
    cases he
    exact (hnone a b c d rest rfl rfl).elim
  · next hnone _ he =>
    cases he
    exact (hnone a b c d rest rfl rfl).elim

theorem quoted_plain {c d : Char} (hc : c ≠ 'u') (hd : plainEscape? c = some d) :
    quoted ('\\' :: c :: rest) = (quoted rest).map fun r => (d :: r.1, r.2) := by
  rw [quoted.eq_def, Option.map_eq_bind]
  split
  · next he => cases he
  · next he => cases he
  · next he =>
    cases he
    exact (hc rfl).elim
  · next he =>
    cases he
    exact (hc rfl).elim
  · next he =>
    cases he
    simp only [hd, Option.bind_eq_bind, Option.bind_some]
    rfl
  · next hnone he =>
    cases he
    exact (hnone c rest rfl rfl).elim

theorem quoted_escape (c : Char) :
    quoted (escape c ++ rest) = (quoted rest).map fun r => (c :: r.1, r.2) := by
  by_cases hq : c = '"'
  · subst hq
    exact quoted_plain (by decide) rfl
  by_cases hb : c = '\\'
  · subst hb
    exact quoted_plain (by decide) rfl
  by_cases hn : c = '\n'
  · subst hn
    exact quoted_plain (by decide) rfl
  by_cases hr : c = '\r'
  · subst hr
    exact quoted_plain (by decide) rfl
  by_cases ht : c = '\t'
  · subst ht
    exact quoted_plain (by decide) rfl
  by_cases h8 : c = '\x08'
  · subst h8
    exact quoted_plain (by decide) rfl
  by_cases hc : c = '\x0c'
  · subst hc
    exact quoted_plain (by decide) rfl
  simp only [escape, hq, hb, hn, hr, ht, h8, hc, if_false]
  by_cases hlow : c.toNat < 0x20
  · have hdigits : hexNumber? ['0', '0', hexDigit (c.toNat / 16), hexDigit (c.toNat % 16)] =
        some c.toNat := by
      have hfirst : hexValue? (hexDigit (c.toNat / 16)) = some (c.toNat / 16) :=
        hexValue?_hexDigit (by omega)
      have hlast : hexValue? (hexDigit (c.toNat % 16)) = some (c.toNat % 16) :=
        hexValue?_hexDigit (by omega)
      have hzero : hexValue? '0' = some 0 := rfl
      simp only [hexNumber?, List.foldlM_cons, List.foldlM_nil, hzero, hfirst, hlast,
        Option.map_some, Option.bind_eq_bind, Option.bind_some, Option.pure_def]
      congr 1
      omega
    rw [if_pos hlow]
    refine (quoted_code hdigits (by omega)).trans ?_
    rw [Char.ofNat_toNat]
    rfl
  · rw [if_neg hlow, List.singleton_append, quoted.eq_def, Option.map_eq_bind]
    split
    · next he => cases he
    · next he =>
      cases he
      exact (hq rfl).elim
    · next he =>
      cases he
      exact (hb rfl).elim
    · next he =>
      cases he
      exact (hb rfl).elim
    · next he =>
      cases he
      exact (hb rfl).elim
    · next he =>
      cases he
      rw [if_neg hlow]
      rfl

theorem quoted_flatMap (cs : List Char) :
    quoted (cs.flatMap escape ++ '"' :: rest) = some (cs, rest) := by
  induction cs with
  | nil =>
    rw [List.flatMap_nil, List.nil_append, quoted.eq_def]
    rfl
  | cons c cs ih => rw [List.flatMap_cons, List.append_assoc, quoted_escape, ih, Option.map_some]

theorem toList_quote (s : String) :
    (quote s).toList = '"' :: (s.toList.flatMap escape ++ ['"']) := by
  rw [quote, String.toList_ofList, List.cons_append]

end Quoted

section Whole

/-- Digits are gathered in whole if their number fits 64 bits. -/
theorem gather_eq {n : Nat} {ds : List Char} (h : Nat.ofDigitChars 10 ds n < 18446744073709551616) :
    gather n ds = (Nat.ofDigitChars 10 ds n, 0) := by
  induction ds generalizing n with
  | nil => rfl
  | cons d ds ih =>
    rw [Nat.ofDigitChars_cons, Nat.mul_comm] at h ⊢
    have hle := le_ofDigitChars (n * 10 + (d.toNat - '0'.toNat)) ds
    rw [gather, if_pos (by omega)]
    exact ih h

/-- What comes next does not go on with a number. -/
def EndsNumber (cs : List Char) : Prop :=
  ∀ c, cs.head? = some c → c.isDigit = false ∧ c ≠ '.' ∧ c ≠ 'e' ∧ c ≠ 'E'

theorem unsignedNumber_toDigits {negative : Bool} {n : Nat} {d : Json} (hr : EndsNumber rest)
    (hd : number? negative (Nat.toDigits 10 n) none none = some d) :
    unsignedNumber negative (Nat.toDigits 10 n ++ rest) = some (d, rest) := by
  have hrun := (digits_toDigits n).someRun_append fun c hc => (hr c hc).1
  have hlead : ¬((Nat.toDigits 10 n).head? = some '0' && (Nat.toDigits 10 n).length ≠ 1) := by
    intro h
    obtain ⟨hhead, hlen⟩ := Bool.and_eq_true_iff.mp h
    obtain rfl := head?_toDigits (of_decide_eq_true hhead)
    exact of_decide_eq_true hlen rfl
  unfold unsignedNumber
  simp only [hrun, Option.bind_eq_bind, Option.bind_some]
  rw [if_neg hlead]
  -- No point and no exponent can follow.
  split
  · exact ((hr '.' rfl).2.1 rfl).elim
  · split
    · exact ((hr 'e' rfl).2.2.1 rfl).elim
    · exact ((hr 'E' rfl).2.2.2 rfl).elim
    · rw [hd, Option.bind_some]

def IsWord (n : Int) : Prop :=
  -9223372036854775808 ≤ n ∧ n < 18446744073709551616

theorem number?_toDigits {n : Int} (h : IsWord n) :
    number? (decide (n < 0)) (Nat.toDigits 10 n.natAbs) none none = some (.int n) := by
  obtain ⟨hl, hu⟩ := h
  have hgather : gather 0 (Nat.toDigits 10 n.natAbs) = (n.natAbs, 0) := by
    have hvalue : Nat.ofDigitChars 10 (Nat.toDigits 10 n.natAbs) 0 = n.natAbs :=
      Nat.ofDigitChars_ten_toDigits
    rw [gather_eq (by omega), hvalue]
  unfold number?
  rw [hgather]
  by_cases hn : n < 0
  · have hrange : (decide (0 < n.natAbs) && decide (n.natAbs ≤ 9223372036854775808)) = true := by
      simp only [Bool.and_eq_true, decide_eq_true_eq]
      omega
    have hvalue : -(n.natAbs : Int) = n := by omega
    simp only [decide_eq_true hn, if_true, hrange, hvalue]
  · have hvalue : (n.natAbs : Int) = n := by omega
    simp only [decide_eq_false hn, hvalue]
    rfl

end Whole

end Narrative.Json
