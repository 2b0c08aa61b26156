import Narrative.Proofs.Expr.Lexing
import Narrative.Text.Reader

/-! The digits of a number, and reading a run of digits off the front of a text. -/

namespace Narrative

theorem digits_toDigits (n : Nat) : Digits (Nat.toDigits 10 n) :=
  ⟨Nat.toDigits_ne_nil, fun _ hc => Nat.isDigit_of_mem_toDigits (by omega) (by omega) hc⟩

theorem toList_writeInt (n : Int) :
    (writeInt n).toList = if n < 0 then '-' :: Nat.toDigits 10 n.natAbs
      else Nat.toDigits 10 n.natAbs := by
  have hminus : "-".toList = ['-'] := rfl
  unfold writeInt writeNat
  split
  · rw [String.toList_append, hminus, String.toList_ofList, List.singleton_append]
  · rw [String.toList_ofList]

theorem head?_toDigits {n : Nat} (h : (Nat.toDigits 10 n).head? = some '0') : n = 0 := by
  induction n using Nat.strongRecOn with
  | ind n ih =>
    by_cases hn : n < 10
    · rw [Nat.toDigits_of_lt_base hn] at h
      have hall : ∀ m < 10, Nat.digitChar m = '0' → m = 0 := by decide
      exact hall n hn (Option.some.inj h)
    · obtain ⟨d, ds, hds⟩ :=
        List.exists_cons_of_ne_nil (Nat.toDigits_ne_nil (b := 10) (n := n / 10))
      rw [Nat.toDigits_of_base_le (by omega) (by omega), hds] at h
      have hzero : n / 10 = 0 := ih (n / 10) (by omega) (hds ▸ h)
      omega

theorem le_ofDigitChars (n : Nat) (ds : List Char) : n ≤ Nat.ofDigitChars 10 ds n := by
  rw [Nat.ofDigitChars_eq_ofDigitChars_zero]
  have hpow : 0 < 10 ^ ds.length := Nat.pow_pos (by omega)
  exact Nat.le_trans (Nat.le_mul_of_pos_left n hpow) (Nat.le_add_right _ _)

namespace Digits

variable {ds rest : List Char}

theorem exists_cons (h : Digits ds) : ∃ c cs, ds = c :: cs ∧ c.isDigit := by
  obtain ⟨c, cs, rfl⟩ := List.exists_cons_of_ne_nil h.1
  exact ⟨c, cs, rfl, h.2 c List.mem_cons_self⟩

theorem takeWhile_append (h : Digits ds) (hr : ∀ c, rest.head? = some c → c.isDigit = false) :
    (ds ++ rest).takeWhile Char.isDigit = ds := by
  rw [List.takeWhile_append_of_pos h.2]
  cases rest with
  | nil => exact List.append_nil _
  | cons c cs => rw [List.takeWhile_cons_of_neg (by simp [hr c rfl]), List.append_nil]

theorem dropWhile_append (h : Digits ds) (hr : ∀ c, rest.head? = some c → c.isDigit = false) :
    (ds ++ rest).dropWhile Char.isDigit = rest := by
  rw [List.dropWhile_append_of_pos h.2]
  cases rest with
  | nil => rfl
  | cons c cs => rw [List.dropWhile_cons_of_neg (by simp [hr c rfl])]

theorem someRun_append (h : Digits ds) (hr : ∀ c, rest.head? = some c → c.isDigit = false) :
    Reader.someRun Char.isDigit (ds ++ rest) = some (ds, rest) := by
  obtain ⟨c, cs, hcons, -⟩ := h.exists_cons
  rw [Reader.someRun, h.takeWhile_append hr, h.dropWhile_append hr, hcons]

end Digits

end Narrative
