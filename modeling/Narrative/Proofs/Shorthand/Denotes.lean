import Narrative.Proofs.Expr.Grammar
import Narrative.Proofs.Shorthand.Quotation

/-! What a word of shorthand denotes, and that its literal reads as that value and nothing else. -/

namespace Narrative.Shorthand

open Token

def signed (negative : Bool) (cs : List Char) : List Char :=
  if negative then '-' :: cs else cs

def LooksInteger (w : List Char) : Prop :=
  ∃ negative ds, Digits ds ∧ w = signed negative ds

def LooksDecimal (w : List Char) : Prop :=
  ∃ negative whole frac, Digits whole ∧ Digits frac ∧ w = signed negative (whole ++ '.' :: frac)

def Spells (w : List Char) (b : Bool) : Prop :=
  w.map Char.toLower = (Flag.writeBool b).toList

def StartsQuoted (w : List Char) : Prop :=
  w.head?.any isQuote = true

/-- The word is one quoted text, its first quote that is not escaped being its last character. -/
def Quoted (w s : List Char) : Prop :=
  ∃ q body, isQuote q = true ∧ Written q body s ∧ w = q :: (body ++ [q])

/-- The value that a word of shorthand stands for. -/
inductive Denotes : List Char → Value → Prop where
  | int {negative : Bool} {ds : List Char} {n : Int64} (hd : Digits ds)
      (hfit : (Nat.ofDigitChars 10 ds 0 : Int) ≤ greatestWord)
      (hn : n.toInt = if negative then -(Nat.ofDigitChars 10 ds 0 : Int)
        else Nat.ofDigitChars 10 ds 0) :
      Denotes (signed negative ds) (.int n)
  | float {negative : Bool} {whole frac : List Char} (hw : Digits whole) (hf : Digits frac) :
      Denotes (signed negative (whole ++ '.' :: frac))
        (.float (if negative then -readFloat whole frac 0 else readFloat whole frac 0))
  | bool {w : List Char} {b : Bool} (h : Spells w b) : Denotes w (.bool b)
  | quoted {w s : List Char} (h : Quoted w s) : Denotes w (.text (String.ofList s))
  | bare {w : List Char} (hi : ¬ LooksInteger w) (hd : ¬ LooksDecimal w) (hb : ∀ b, ¬ Spells w b)
      (hq : ¬ StartsQuoted w) : Denotes w (.text (String.ofList w))

theorem looksNumeric_head {w : List Char} (h : LooksInteger w ∨ LooksDecimal w) :
    ∃ c cs, w = c :: cs ∧ (c = '-' ∨ c.isDigit) := by
  rcases h with ⟨negative, ds, hd, rfl⟩ | ⟨negative, ds, frac, hd, _, rfl⟩ <;>
    obtain ⟨hne, hd⟩ := hd <;> obtain ⟨c, ds, rfl⟩ := List.exists_cons_of_ne_nil hne <;>
    cases negative
  · exact ⟨c, ds, rfl, .inr (hd c (by simp))⟩
  · exact ⟨'-', c :: ds, rfl, .inl rfl⟩
  · exact ⟨c, _, rfl, .inr (hd c (by simp))⟩
  · exact ⟨'-', _, rfl, .inl rfl⟩

theorem isNumeric_signed {negative : Bool} {ds : List Char}
    (h : negative = false → ds.head? ≠ some '-') :
    isNumeric (signed negative ds) = true ↔
      (∀ c ∈ ds, c.isDigit ∨ c = '.') ∧ (∃ c ∈ ds, c.isDigit) ∧ ds.count '.' ≤ 1 ∧
        ds.head? ≠ some '.' ∧ ds.getLast? ≠ some '.' := by
  cases negative <;> simp_all [isNumeric, signed, and_assoc]

theorem exists_signed (w : List Char) :
    ∃ negative ds, w = signed negative ds ∧ (negative = false → ds.head? ≠ some '-') := by
  by_cases h : w.head? = some '-'
  · obtain ⟨ds, rfl⟩ := List.head?_eq_some_iff.mp h
    exact ⟨true, ds, rfl, by simp⟩
  · exact ⟨false, w, rfl, fun _ => h⟩

theorem isNumeric_of_looksInteger {w : List Char} (h : LooksInteger w) : isNumeric w = true := by
  obtain ⟨negative, ds, hd, rfl⟩ := h
  refine (isNumeric_signed fun _ => hd.head?_ne (by decide)).mpr
    ⟨fun c hc => .inl (hd.2 c hc), ?_, ?_, hd.head?_ne (by decide),
      fun h => hd.not_mem (by decide) (List.mem_of_getLast? h)⟩
  · obtain ⟨c, hc⟩ := List.exists_mem_of_ne_nil _ hd.1
    exact ⟨c, hc, hd.2 c hc⟩
  · rw [List.count_eq_zero.mpr (hd.not_mem (by decide))]
    exact Nat.zero_le 1

theorem isNumeric_of_looksDecimal {w : List Char} (h : LooksDecimal w) : isNumeric w = true := by
  obtain ⟨negative, whole, frac, hw, hf, rfl⟩ := h
  obtain ⟨c, cs, rfl⟩ := List.exists_cons_of_ne_nil hw.1
  have hhead (d : Char) (hd : d.isDigit = false) : (c :: cs ++ '.' :: frac).head? ≠ some d :=
    fun he => hw.head?_ne hd he
  refine (isNumeric_signed fun _ => hhead '-' (by decide)).mpr ⟨?_,
    ⟨c, by simp, hw.2 c (by simp)⟩, ?_, hhead '.' (by decide), ?_⟩
  · intro d hd
    rcases List.mem_append.mp hd with hd | hd
    · exact .inl (hw.2 d hd)
    · rcases List.mem_cons.mp hd with rfl | hd
      · exact .inr rfl
      · exact .inl (hf.2 d hd)
  · have hcw := List.count_eq_zero.mpr (hw.not_mem (c := '.') (by decide))
    have hcf := List.count_eq_zero.mpr (hf.not_mem (c := '.') (by decide))
    rw [List.count_append, List.count_cons_self]
    omega
  · intro hl
    rw [List.getLast?_append, List.getLast?_cons_of_ne_nil hf.1,
      List.getLast?_eq_some_getLast hf.1] at hl
    exact hf.not_mem (by decide) (Option.some.inj hl ▸ List.getLast_mem hf.1)

theorem isNumeric_iff {w : List Char} : isNumeric w = true ↔ LooksInteger w ∨ LooksDecimal w := by
  constructor
  · intro h
    obtain ⟨negative, ds, rfl, hsign⟩ := exists_signed w
    obtain ⟨hall, ⟨d, hd, hdd⟩, hcount, hhead, hlast⟩ := (isNumeric_signed hsign).mp h
    by_cases hp : '.' ∈ ds
    · obtain ⟨whole, frac, rfl⟩ := List.append_of_mem hp
      rw [List.count_append, List.count_cons_self] at hcount
      have hw : '.' ∉ whole := List.count_eq_zero.mp (by omega)
      have hf : '.' ∉ frac := List.count_eq_zero.mp (by omega)
      refine .inr ⟨negative, whole, frac, ⟨?_, fun c hc => ?_⟩, ⟨?_, fun c hc => ?_⟩, rfl⟩
      · rintro rfl
        exact hhead rfl
      · exact (hall c (by simp [hc])).resolve_right fun he => hw (he ▸ hc)
      · rintro rfl
        exact hlast (by simp)
      · exact (hall c (by simp [hc])).resolve_right fun he => hf (he ▸ hc)
    · exact .inl ⟨negative, ds, ⟨List.ne_nil_of_mem hd, fun c hc =>
        (hall c hc).resolve_right fun he => hp (he ▸ hc)⟩, rfl⟩
  · exact fun h => h.elim isNumeric_of_looksInteger isNumeric_of_looksDecimal

theorem toLower_eq_self {c : Char} (h : c.toNat < 65) : c.toLower = c := by
  refine dif_neg fun hc => ?_
  have hl : 65 ≤ c.toNat := UInt32.le_iff_toNat_le.mp hc.1
  omega

theorem Spells.head_ge {w : List Char} {b : Bool} (h : Spells w b) :
    ∃ c cs, w = c :: cs ∧ 65 ≤ c.toNat := by
  cases w with
  | nil => cases b <;> cases h
  | cons c cs =>
    refine ⟨c, cs, rfl, Nat.le_of_not_lt fun hc => ?_⟩
    have hlow := toLower_eq_self hc
    have hhead := congrArg List.head? h
    have hb : (Flag.writeBool b).toList.head? = some (if b then 't' else 'f') := by cases b <;> rfl
    rw [List.map_cons, hlow, hb, List.head?_cons, Option.some.injEq] at hhead
    subst hhead
    cases b <;> revert hc <;> decide

theorem startsQuoted_iff {w : List Char} :
    StartsQuoted w ↔ ∃ c cs, w = c :: cs ∧ (c = '\'' ∨ c = '"') := by
  cases w <;> simp [StartsQuoted, isQuote_iff]

theorem StartsQuoted.not_numeric {w : List Char} (h : StartsQuoted w) :
    ¬ (LooksInteger w ∨ LooksDecimal w) := by
  intro hn
  obtain ⟨c, cs, rfl, hc⟩ := startsQuoted_iff.mp h
  obtain ⟨d, ds, he, hd⟩ := looksNumeric_head hn
  cases he
  rcases hc with rfl | rfl <;> simp at hd

theorem Spells.not_numeric {w : List Char} {b : Bool} (h : Spells w b) :
    ¬ (LooksInteger w ∨ LooksDecimal w) := by
  intro hn
  obtain ⟨c, cs, rfl, hc⟩ := h.head_ge
  obtain ⟨d, ds, he, hd⟩ := looksNumeric_head hn
  cases he
  rcases hd with rfl | hd
  · simp at hc
  · have hu : c.toNat ≤ 57 := (Char.isDigit_iff_toNat.mp hd).2
    omega

theorem Spells.not_startsQuoted {w : List Char} {b : Bool} (h : Spells w b) : ¬ StartsQuoted w := by
  intro hs
  obtain ⟨c, cs, rfl, hc⟩ := h.head_ge
  obtain ⟨d, ds, he, hd⟩ := startsQuoted_iff.mp hs
  cases he
  rcases hd with rfl | rfl <;> simp at hc

theorem Quoted.startsQuoted {w s : List Char} (h : Quoted w s) : StartsQuoted w := by
  obtain ⟨q, body, hq, _, rfl⟩ := h
  exact startsQuoted_iff.mpr ⟨q, _, rfl, isQuote_iff.mp hq⟩

section Literal

variable {w : String}

theorem literal_of_numeric (h : LooksInteger w.toList ∨ LooksDecimal w.toList) : literal w = w :=
  if_pos (isNumeric_iff.mpr h)

theorem literal_of_startsQuoted (h : StartsQuoted w.toList) : literal w = w := by
  rw [literal, if_neg fun hn => h.not_numeric (isNumeric_iff.mp hn)]
  exact if_pos h

theorem sameLetters_iff (b : Bool) :
    Flag.sameLetters w (Flag.writeBool b) = true ↔ Spells w.toList b := by
  have hb : (Flag.writeBool b).toList.map Char.toLower = (Flag.writeBool b).toList := by
    cases b <;> decide
  rw [Flag.sameLetters, decide_eq_true_iff, hb, Spells]

theorem literal_of_spells {b : Bool} (h : Spells w.toList b) : literal w = Flag.writeBool b := by
  have hq : ¬ w.toList.head?.any isQuote = true := h.not_startsQuoted
  rw [literal, if_neg fun hn => h.not_numeric (isNumeric_iff.mp hn), if_neg hq]
  have ht := (sameLetters_iff b).mpr h
  cases b with
  | true => exact if_pos ht
  | false =>
    rw [if_neg, if_pos]
    · rfl
    · exact ht
    · intro h'
      have h' := (sameLetters_iff true).mp h'
      rw [Spells, h] at h'
      cases h'

theorem literal_of_bare (hn : ¬ (LooksInteger w.toList ∨ LooksDecimal w.toList))
    (hb : ∀ b, ¬ Spells w.toList b) (hq : ¬ StartsQuoted w.toList) :
    (literal w).toList = '\'' :: (w.toList.flatMap escape ++ ['\'']) := by
  have hq' : ¬ w.toList.head?.any isQuote = true := hq
  have ht : ¬ Flag.sameLetters w "true" = true := fun h => hb true ((sameLetters_iff true).mp h)
  have hf : ¬ Flag.sameLetters w "false" = true := fun h => hb false ((sameLetters_iff false).mp h)
  rw [literal, if_neg fun h => hn (isNumeric_iff.mp h), if_neg hq', if_neg ht, if_neg hf,
    String.toList_ofList]
  rfl

end Literal

theorem written_escape (w : List Char) : Written '\'' (w.flatMap escape) w := by
  induction w with
  | nil => exact .nil
  | cons c cs ih =>
    rw [List.flatMap_cons, escape]
    split
    · next h => subst h; exact .escaped ih
    · next hb =>
      split
      · next h => subst h; exact .escaped ih
      · next hq => exact .plain hb hq ih

theorem signed_injective {negative negative' : Bool} {cs cs' : List Char} (hc : cs.head? ≠ some '-')
    (hc' : cs'.head? ≠ some '-') (h : signed negative cs = signed negative' cs') :
    negative = negative' ∧ cs = cs' := by
  cases negative <;> cases negative' <;>
    simp only [signed, if_true, Bool.false_eq_true, if_false] at h
  · exact ⟨rfl, h⟩
  · exact absurd (by rw [h]; rfl) hc
  · exact absurd (by rw [← h]; rfl) hc'
  · exact ⟨rfl, (List.cons.inj h).2⟩

theorem Quoted.unique {w s s' : List Char} (h : Quoted w s) (h' : Quoted w s') : s = s' := by
  obtain ⟨q, body, hq, hb, rfl⟩ := h
  obtain ⟨q', body', _, hb', he⟩ := h'
  have hne := isQuote_ne_backslash hq
  obtain ⟨rfl, hbody⟩ := List.cons.inj he
  have hr : quoted q (body ++ [q]) = some (s, []) := (quoted_iff hne).mpr ⟨body, rfl, hb⟩
  have hr' : quoted q (body ++ [q]) = some (s', []) := (quoted_iff hne).mpr ⟨body', hbody, hb'⟩
  exact (Prod.mk.inj (Option.some.inj (hr.symm.trans hr'))).1

theorem Denotes.unique {w : List Char} {v v' : Value} (h : Denotes w v) (h' : Denotes w v') :
    v = v' := by
  cases h with
  | @int negative ds n hd hfit hn =>
    generalize hw : signed negative ds = w at h'
    have hi : LooksInteger w := ⟨negative, ds, hd, hw.symm⟩
    cases h' with
    | int hd' hfit' hn' =>
      obtain ⟨rfl, rfl⟩ := signed_injective (hd.head?_ne (by decide)) (hd'.head?_ne (by decide)) hw
      rw [Int64.toInt_inj.mp (hn.trans hn'.symm)]
    | float hw' =>
      obtain ⟨rfl, rfl⟩ := signed_injective (hd.head?_ne (by decide)) hw'.point_head? hw
      exact absurd (by simp) (hd.not_mem (c := '.') (by decide))
    | bool hb => exact absurd (.inl hi) hb.not_numeric
    | quoted hq => exact absurd (.inl hi) hq.startsQuoted.not_numeric
    | bare hi' => exact absurd hi hi'
  | @float negative whole frac hwhole hfrac =>
    generalize hw : signed negative (whole ++ '.' :: frac) = w at h'
    have hd : LooksDecimal w := ⟨negative, whole, frac, hwhole, hfrac, hw.symm⟩
    cases h' with
    | int hd' =>
      obtain ⟨rfl, rfl⟩ := signed_injective hwhole.point_head? (hd'.head?_ne (by decide)) hw
      exact absurd (by simp) (hd'.not_mem (c := '.') (by decide))
    | float hwhole' hfrac' =>
      obtain ⟨rfl, he⟩ := signed_injective hwhole.point_head? hwhole'.point_head? hw
      obtain ⟨rfl, rfl⟩ := hwhole.point_injective hwhole' he
      rfl
    | bool hb => exact absurd (.inr hd) hb.not_numeric
    | quoted hq => exact absurd (.inr hd) hq.startsQuoted.not_numeric
    | bare _ hd' => exact absurd hd hd'
  | @bool _ b hb =>
    cases h' with
    | int hd => exact absurd (.inl ⟨_, _, hd, rfl⟩) hb.not_numeric
    | float hw hf => exact absurd (.inr ⟨_, _, _, hw, hf, rfl⟩) hb.not_numeric
    | @bool _ b' hb' =>
      have he := hb.symm.trans hb'
      cases b <;> cases b' <;> first | rfl | exact absurd he (by decide)
    | quoted hq => exact absurd hq.startsQuoted hb.not_startsQuoted
    | bare _ _ hb' => exact absurd hb (hb' b)
  | quoted hq =>
    cases h' with
    | int hd => exact absurd (.inl ⟨_, _, hd, rfl⟩) hq.startsQuoted.not_numeric
    | float hw hf => exact absurd (.inr ⟨_, _, _, hw, hf, rfl⟩) hq.startsQuoted.not_numeric
    | bool hb => exact absurd hq.startsQuoted hb.not_startsQuoted
    | quoted hq' => rw [hq.unique hq']
    | bare _ _ _ hq' => exact absurd hq.startsQuoted hq'
  | bare hi hd hb hq =>
    cases h' with
    | int hd' => exact absurd ⟨_, _, hd', rfl⟩ hi
    | float hw hf => exact absurd ⟨_, _, _, hw, hf, rfl⟩ hd
    | bool hb' => exact absurd hb' (hb _)
    | quoted hq' => exact absurd hq'.startsQuoted hq
    | bare => rfl

end Narrative.Shorthand
