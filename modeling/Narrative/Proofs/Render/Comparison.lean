import Narrative.Proofs.Number.Double
import Narrative.Render.Operator

/-! Comparisons of whole numbers. Equality compares the numbers themselves, the order the doubles
nearest to them, and so the two disagree where different numbers have one nearest double. -/

namespace Narrative.BinaryOp

theorem order?_int (a b : Int64) :
    order? (.int a) (.int b) = some (compare (nearestWhole a.toInt) (nearestWhole b.toInt)) := by
  have hpos : (0 : Int) < 2 ^ 52 := by decide
  have ha := shows_nearestFloat a
  have hb := shows_nearestFloat b
  have hlt := (lt_iff_of_shows ha hb).trans (Int.mul_lt_mul_right hpos)
  have hgt := (lt_iff_of_shows hb ha).trans (Int.mul_lt_mul_right hpos)
  have heq := (beq_iff_of_shows ha hb).trans (mul_left_inj' hpos.ne')
  have horder : order? (.int a) (.int b)
      = if nearestFloat a < nearestFloat b then some .lt
        else if nearestFloat b < nearestFloat a then some .gt
        else if nearestFloat a == nearestFloat b then some .eq else none := rfl
  rw [horder]
  simp only [hlt, hgt, heq]
  rcases lt_trichotomy (nearestWhole a.toInt) (nearestWhole b.toInt) with h | h | h
  · rw [if_pos h, compare_lt_iff_lt.mpr h]
  · rw [if_neg (by omega), if_neg (by omega), if_pos h, compare_eq_iff_eq.mpr h]
  · rw [if_neg (by omega), if_pos h, compare_gt_iff_gt.mpr h]

theorem compareBy_int (accepts : Ordering → Bool) (a b : Int64) :
    compareBy accepts (.int a) (.int b)
      = .ok (.bool (accepts (compare (nearestWhole a.toInt) (nearestWhole b.toInt)))) := by
  rw [compareBy, order?_int]

theorem apply_eq_int (a b : Int64) :
    apply .eq (.int a) (.int b) = .ok (.bool (decide (a.toInt = b.toInt))) := by
  have hsame : Value.looseEq (.int a) (.int b) = (a == b) := rfl
  have hwords : (a == b) = decide (a.toInt = b.toInt) := by
    rw [Bool.eq_iff_iff, beq_iff_eq, decide_eq_true_iff, Int64.toInt_inj]
  rw [apply, hsame, hwords]

/-- Every comparison of two whole numbers says what holds between them. -/
structure ComparesExactly (a b : Int64) : Prop where
  lt : apply .lt (.int a) (.int b) = .ok (.bool (decide (a.toInt < b.toInt)))
  le : apply .le (.int a) (.int b) = .ok (.bool (decide (a.toInt ≤ b.toInt)))
  gt : apply .gt (.int a) (.int b) = .ok (.bool (decide (a.toInt > b.toInt)))
  ge : apply .ge (.int a) (.int b) = .ok (.bool (decide (a.toInt ≥ b.toInt)))
  eq : apply .eq (.int a) (.int b) = .ok (.bool (decide (a.toInt = b.toInt)))

/-- The order of the nearest doubles is all that the comparisons say. -/
theorem comparesExactly_of_compare {a b : Int64}
    (h : compare (nearestWhole a.toInt) (nearestWhole b.toInt) = compare a.toInt b.toInt) :
    ComparesExactly a b := by
  have hby {p : Prop} [Decidable p] (accepts : Ordering → Bool)
      (haccepts : accepts (compare a.toInt b.toInt) = true ↔ p) :
      compareBy accepts (.int a) (.int b) = .ok (.bool (decide p)) := by
    have hanswer : accepts (compare a.toInt b.toInt) = decide p := by
      rw [Bool.eq_iff_iff, haccepts, decide_eq_true_iff]
    rw [compareBy_int, h, hanswer]
  exact {
    lt := hby _ (Ordering.isLT_iff_eq_lt.trans compare_lt_iff_lt)
    le := hby _ Std.isLE_compare
    gt := hby _ (Ordering.isGT_iff_eq_gt.trans compare_gt_iff_gt)
    ge := hby _ Std.isGE_compare
    eq := apply_eq_int a b }

theorem answer_injective {p q : Bool}
    (h : (.ok (.bool p) : Except EvalError Value) = .ok (.bool q)) : p = q := by
  injection h with h
  injection h

theorem comparesExactly_iff (a b : Int64) :
    ComparesExactly a b ↔ (nearestWhole a.toInt = nearestWhole b.toInt → a.toInt = b.toInt) := by
  constructor
  · intro h hnear
    have hle := compareBy_int (·.isLE) a b
    have hge := compareBy_int (·.isGE) a b
    rw [compare_eq_iff_eq.mpr hnear] at hle hge
    have hab : decide (a.toInt ≤ b.toInt) = true := answer_injective (h.le.symm.trans hle)
    have hba : decide (a.toInt ≥ b.toInt) = true := answer_injective (h.ge.symm.trans hge)
    exact Int.le_antisymm (of_decide_eq_true hab) (of_decide_eq_true hba)
  · intro h
    apply comparesExactly_of_compare
    rcases lt_trichotomy a.toInt b.toInt with hlt | heq | hgt
    · have hle := nearestWhole_mono hlt.le
      have hne : nearestWhole a.toInt ≠ nearestWhole b.toInt := fun hn => hlt.ne (h hn)
      rw [compare_lt_iff_lt.mpr hlt, compare_lt_iff_lt.mpr (lt_of_le_of_ne hle hne)]
    · rw [heq, compare_eq_iff_eq.mpr rfl, compare_eq_iff_eq.mpr rfl]
    · have hle := nearestWhole_mono hgt.le
      have hne : nearestWhole b.toInt ≠ nearestWhole a.toInt := fun hn => hgt.ne (h hn.symm).symm
      rw [compare_gt_iff_gt.mpr hgt, compare_gt_iff_gt.mpr (lt_of_le_of_ne hle hne)]

theorem not_comparesExactly_above : ¬ ComparesExactly 9007199254740992 9007199254740993 := by
  intro h
  have hnear : compare (nearestWhole 9007199254740992) (nearestWhole 9007199254740993) = .eq := by
    decide +kernel
  have hanswer : compareBy (·.isLT) (.int 9007199254740992) (.int 9007199254740993) =
      .ok (.bool false) := by
    have hby := compareBy_int (·.isLT) 9007199254740992 9007199254740993
    rwa [show Int64.toInt 9007199254740992 = 9007199254740992 by decide,
      show Int64.toInt 9007199254740993 = 9007199254740993 by decide, hnear] at hby
  have hless : decide (Int64.toInt 9007199254740992 < Int64.toInt 9007199254740993) = false :=
    answer_injective (h.lt.symm.trans hanswer)
  revert hless
  decide

theorem comparesExactly_of_small {a b : Int64} (ha : a.toInt.natAbs ≤ 2 ^ 53)
    (hb : b.toInt.natAbs ≤ 2 ^ 53) : ComparesExactly a b := by
  apply comparesExactly_of_compare
  rw [nearestWhole_eq_self ha, nearestWhole_eq_self hb]

end Narrative.BinaryOp
