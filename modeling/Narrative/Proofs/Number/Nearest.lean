import Mathlib.Tactic.Ring

/-! Natural numbers rounded to the nearest double. Rounding keeps the order and leaves a number of
at most 53 binary digits as it is. -/

namespace Narrative

/-- The quotient by `2 ^ k` rounded to the nearest whole number, and to the even one of two as
near. -/
def nearestQuotient (n k : Nat) : Nat :=
  if 2 * (n % 2 ^ k) < 2 ^ k then n / 2 ^ k
  else if 2 * (n % 2 ^ k) = 2 ^ k then n / 2 ^ k + n / 2 ^ k % 2
  else n / 2 ^ k + 1

/-- The double nearest to a natural number. From `2 ^ 53` on the doubles between two powers of two
are the multiples of a greater one. -/
def nearestDouble (n : Nat) : Nat :=
  nearestQuotient n (n.log2 - 52) * 2 ^ (n.log2 - 52)

theorem div_le_nearestQuotient (n k : Nat) : n / 2 ^ k ≤ nearestQuotient n k := by
  unfold nearestQuotient
  split
  · exact Nat.le_refl _
  · split <;> omega

theorem nearestQuotient_le (n k : Nat) : nearestQuotient n k ≤ n / 2 ^ k + 1 := by
  unfold nearestQuotient
  split
  · omega
  · split <;> omega

theorem nearestQuotient_mono {a b : Nat} (h : a ≤ b) (k : Nat) :
    nearestQuotient a k ≤ nearestQuotient b k := by
  have hq : a / 2 ^ k ≤ b / 2 ^ k := Nat.div_le_div_right h
  rcases hq.lt_or_eq with hlt | heq
  · have ha := nearestQuotient_le a k
    have hb := div_le_nearestQuotient b k
    omega
  · -- With equal quotients the remainders have the order of the numbers.
    have ha := Nat.div_add_mod a (2 ^ k)
    have hb := Nat.div_add_mod b (2 ^ k)
    rw [heq] at ha
    have hr : a % 2 ^ k ≤ b % 2 ^ k := by omega
    unfold nearestQuotient
    rw [heq]
    split_ifs <;> omega

theorem nearestQuotient_scale (n k s : Nat) :
    nearestQuotient (n * 2 ^ s) (k + s) = nearestQuotient n k := by
  have hs : 0 < 2 ^ s := Nat.two_pow_pos s
  have hd : n * 2 ^ s / 2 ^ (k + s) = n / 2 ^ k := by
    rw [pow_add, Nat.mul_div_mul_right _ _ hs]
  have hm : 2 * (n * 2 ^ s % 2 ^ (k + s)) = 2 * (n % 2 ^ k) * 2 ^ s := by
    rw [pow_add, Nat.mul_mod_mul_right, mul_assoc]
  simp only [nearestQuotient, hd, hm]
  simp only [pow_add, Nat.mul_lt_mul_right hs, Nat.mul_left_inj hs.ne']

theorem nearestQuotient_exact (n k : Nat) : nearestQuotient (n * 2 ^ k) k = n := by
  have hk : 0 < 2 ^ k := Nat.two_pow_pos k
  rw [nearestQuotient, Nat.mul_mod_left, if_pos (by omega), Nat.mul_div_cancel _ hk]

theorem nearestDouble_eq_self {n : Nat} (h : n ≤ 2 ^ 53) : nearestDouble n = n := by
  rcases h.lt_or_eq with hlt | rfl
  · have hlog : n.log2 - 52 = 0 := by
      by_cases hz : n = 0
      · subst hz
        rfl
      · have := (Nat.log2_lt hz).mpr hlt
        omega
    have hq := nearestQuotient_exact n 0
    rw [pow_zero, mul_one] at hq
    rw [nearestDouble, hlog, pow_zero, mul_one, hq]
  · rw [nearestDouble, Nat.log2_two_pow]
    have hq := nearestQuotient_exact (2 ^ 52) 1
    rw [← pow_add] at hq
    rw [hq, ← pow_add]

/-- Between two powers of two the rounded quotient has 53 binary digits, or it is the next power. -/
theorem nearestQuotient_range {n : Nat} (h : 52 ≤ n.log2) :
    2 ^ 52 ≤ nearestQuotient n (n.log2 - 52) ∧ nearestQuotient n (n.log2 - 52) ≤ 2 ^ 53 := by
  have hn : n ≠ 0 := by
    rintro rfl
    simp at h
  have hpos : 0 < 2 ^ (n.log2 - 52) := Nat.two_pow_pos _
  have hlow : 2 ^ 52 * 2 ^ (n.log2 - 52) ≤ n := by
    rw [← pow_add, Nat.add_sub_cancel' h]
    exact Nat.log2_self_le hn
  have hhigh : n < 2 ^ 53 * 2 ^ (n.log2 - 52) := by
    rw [← pow_add, show 53 + (n.log2 - 52) = n.log2 + 1 by omega]
    exact Nat.lt_log2_self
  have hdiv : 2 ^ 52 ≤ n / 2 ^ (n.log2 - 52) := (Nat.le_div_iff_mul_le hpos).mpr hlow
  have hdiv' : n / 2 ^ (n.log2 - 52) < 2 ^ 53 := (Nat.div_lt_iff_lt_mul hpos).mpr hhigh
  have hq := div_le_nearestQuotient n (n.log2 - 52)
  have hq' := nearestQuotient_le n (n.log2 - 52)
  omega

theorem nearestDouble_range {n : Nat} (h : 52 ≤ n.log2) :
    2 ^ n.log2 ≤ nearestDouble n ∧ nearestDouble n ≤ 2 ^ (n.log2 + 1) := by
  obtain ⟨hlow, hhigh⟩ := nearestQuotient_range h
  have hl := Nat.mul_le_mul_right (2 ^ (n.log2 - 52)) hlow
  have hu := Nat.mul_le_mul_right (2 ^ (n.log2 - 52)) hhigh
  rw [← pow_add, show 52 + (n.log2 - 52) = n.log2 by omega] at hl
  rw [← pow_add, show 53 + (n.log2 - 52) = n.log2 + 1 by omega] at hu
  exact ⟨hl, hu⟩

theorem nearestDouble_mono {a b : Nat} (h : a ≤ b) : nearestDouble a ≤ nearestDouble b := by
  by_cases hb : b ≤ 2 ^ 53
  · rw [nearestDouble_eq_self hb, nearestDouble_eq_self (h.trans hb)]
    exact h
  · have hb0 : b ≠ 0 := by omega
    have hlb : 53 ≤ b.log2 := (Nat.le_log2 hb0).mpr (by omega)
    have hb' := (nearestDouble_range (n := b) (by omega)).1
    by_cases ha : a ≤ 2 ^ 53
    · rw [nearestDouble_eq_self ha]
      exact (ha.trans (Nat.pow_le_pow_right (by omega) hlb)).trans hb'
    · have ha0 : a ≠ 0 := by omega
      have hla : 53 ≤ a.log2 := (Nat.le_log2 ha0).mpr (by omega)
      have hlog : a.log2 ≤ b.log2 := (Nat.le_log2 hb0).mpr ((Nat.log2_self_le ha0).trans h)
      rcases hlog.lt_or_eq with hlt | heq
      · have ha' := (nearestDouble_range (n := a) (by omega)).2
        exact (ha'.trans (Nat.pow_le_pow_right (by omega) hlt)).trans hb'
      · rw [nearestDouble, nearestDouble, heq]
        exact Nat.mul_le_mul_right _ (nearestQuotient_mono h _)

def nearestWhole (z : Int) : Int :=
  z.sign * nearestDouble z.natAbs

theorem nearestWhole_natCast (n : Nat) : nearestWhole n = nearestDouble n := by
  cases n with
  | zero => rfl
  | succ n =>
    have hs : ((n + 1 : Nat) : Int).sign = 1 := Int.sign_natCast_add_one n
    rw [nearestWhole, hs, one_mul, Int.natAbs_natCast]

theorem nearestWhole_neg (z : Int) : nearestWhole (-z) = -nearestWhole z := by
  rw [nearestWhole, Int.sign_neg, Int.natAbs_neg, neg_mul]
  rfl

theorem nearestWhole_eq_self {z : Int} (h : z.natAbs ≤ 2 ^ 53) : nearestWhole z = z := by
  rw [nearestWhole, nearestDouble_eq_self h, Int.sign_mul_natAbs]

theorem nearestWhole_mono {a b : Int} (h : a ≤ b) : nearestWhole a ≤ nearestWhole b := by
  obtain ⟨m, rfl | rfl⟩ := Int.eq_nat_or_neg a <;> obtain ⟨n, rfl | rfl⟩ := Int.eq_nat_or_neg b
  · rw [nearestWhole_natCast, nearestWhole_natCast]
    exact_mod_cast nearestDouble_mono (Int.ofNat_le.mp h)
  · obtain rfl : m = 0 := by omega
    obtain rfl : n = 0 := by omega
    rfl
  · rw [nearestWhole_neg, nearestWhole_natCast, nearestWhole_natCast]
    omega
  · rw [nearestWhole_neg, nearestWhole_neg, nearestWhole_natCast, nearestWhole_natCast]
    have := nearestDouble_mono (show n ≤ m by omega)
    omega

end Narrative
