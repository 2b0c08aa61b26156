import Mathlib
import Narrative.Number.Binary
import Narrative.Proofs.Number.Nearest

/-! The doubles of machine words: which they are, and that comparing them compares the rounded
words. -/

namespace Narrative

open Float.Model Float.Model.UnpackedFloat

/-- What is left of a mantissa that was shifted by `k` places. -/
structure Shifted (n k : Nat) (em : ExtendedMantissa) : Prop where
  mantissa : em.mantissa = n / 2 ^ k
  half : em.roundBit = true ↔ 2 ^ k ≤ 2 * (n % 2 ^ k)
  rest : em.stickyBit = true ↔ 2 * (n % 2 ^ k) % 2 ^ k ≠ 0

namespace Shifted

variable {n k : Nat} {em : ExtendedMantissa}

theorem exact (n : Nat) : Shifted n 0 (.ofMantissaAndAccuracy n .exact) := by
  refine ⟨?_, ?_, ?_⟩ <;> simp [ExtendedMantissa.ofMantissaAndAccuracy, Nat.mod_one]

theorem step (h : Shifted n k em) : Shifted n (k + 1) em.shiftRightOne := by
  have hk : 0 < 2 ^ k := Nat.two_pow_pos k
  have hr : n % 2 ^ k < 2 ^ k := Nat.mod_lt n hk
  have hb : n / 2 ^ k % 2 = 0 ∨ n / 2 ^ k % 2 = 1 := by omega
  have hsplit : n % 2 ^ (k + 1) = n % 2 ^ k + 2 ^ k * (n / 2 ^ k % 2) := Nat.mod_mul
  have hpow : 2 ^ (k + 1) = 2 ^ k * 2 := pow_succ 2 k
  refine ⟨?_, ?_, ?_⟩
  · rw [ExtendedMantissa.shiftRightOne, h.mantissa, Nat.div_div_eq_div_mul, ← pow_succ]
  · have hbit : em.shiftRightOne.roundBit = true ↔ n / 2 ^ k % 2 = 1 := by
      simp only [ExtendedMantissa.shiftRightOne, h.mantissa, bne_iff_ne]
      omega
    rw [hbit, hsplit, hpow]
    rcases hb with hb | hb <;> rw [hb] <;> omega
  · -- The two bits together say whether anything was left behind.
    have hdropped : em.shiftRightOne.stickyBit = true ↔ n % 2 ^ k ≠ 0 := by
      simp only [ExtendedMantissa.shiftRightOne, Bool.or_eq_true, h.half, h.rest]
      constructor
      · rintro (hle | hne) hz
        · rw [hz] at hle
          omega
        · simp [hz] at hne
      · intro hne
        by_cases hle : 2 ^ k ≤ 2 * (n % 2 ^ k)
        · exact .inl hle
        · right
          rw [Nat.mod_eq_of_lt (by omega)]
          omega
    have htwice : 2 * (n % 2 ^ (k + 1)) % 2 ^ (k + 1) = 2 * (n % 2 ^ k) := by
      have hsum : 2 * (n % 2 ^ (k + 1)) = 2 * (n % 2 ^ k) + 2 ^ (k + 1) * (n / 2 ^ k % 2) := by
        rw [hsplit, hpow]
        ring
      rw [hsum, Nat.add_mul_mod_self_left]
      exact Nat.mod_eq_of_lt (by omega)
    rw [hdropped, htwice]
    omega

theorem shift (n k : Nat) :
    Shifted n k (ExtendedMantissa.ofMantissaAndAccuracy n .exact >>> k) := by
  induction k with
  | zero => exact exact n
  | succ k ih => exact ih.step

theorem rounded (h : Shifted n k em) : em.roundedMantissa = nearestQuotient n k := by
  have hk : 0 < 2 ^ k := Nat.two_pow_pos k
  have hr : n % 2 ^ k < 2 ^ k := Nat.mod_lt n hk
  obtain ⟨m, roundBit, stickyBit⟩ := em
  obtain ⟨hm, hhalf, hrest⟩ := h
  dsimp only at hm hhalf hrest
  unfold nearestQuotient
  cases roundBit with
  | false =>
    have hlt : 2 * (n % 2 ^ k) < 2 ^ k := by simpa using hhalf
    rw [if_pos hlt, ← hm]
    cases stickyBit <;> rfl
  | true =>
    have hle : 2 ^ k ≤ 2 * (n % 2 ^ k) := by simpa using hhalf
    have hmod : 2 * (n % 2 ^ k) % 2 ^ k = 2 * (n % 2 ^ k) - 2 ^ k := by
      rw [Nat.mod_eq_sub_mod hle, Nat.mod_eq_of_lt (by omega)]
    rw [if_neg (by omega)]
    cases stickyBit with
    | false =>
      have hz : 2 * (n % 2 ^ k) % 2 ^ k = 0 := by simpa using hrest
      rw [if_pos (by omega), ← hm]
      rfl
    | true =>
      have hnz : 2 * (n % 2 ^ k) % 2 ^ k ≠ 0 := by simpa using hrest
      rw [if_neg (by omega), ← hm]
      rfl

end Shifted

section Rounding

variable {n : Nat} {e : Int} (s : Sign)

theorem targetExponent_eq (h : 52 ≤ n.log2) (he : -1074 ≤ e + ↑(n.log2 - 52)) :
    Format.binary64.targetExponent (totalExponent n e) = e + ↑(n.log2 - 52) := by
  simp only [Format.targetExponent, totalExponent, Format.mantissaBits, Format.minExponent]
  norm_num
  omega

theorem shiftToTargetExponent_eq (h : 52 ≤ n.log2) (he : -1074 ≤ e + ↑(n.log2 - 52)) :
    shiftToTargetExponent .binary64 n e .exact
      = (ExtendedMantissa.ofMantissaAndAccuracy n .exact >>> (n.log2 - 52), e +
        ↑(n.log2 - 52)) := by
  have hk : (e + ↑(n.log2 - 52) - e).toNat = n.log2 - 52 := by omega
  simp only [shiftToTargetExponent, targetExponent_eq h he, shiftToExponent, hk]

theorem log2_eq_52 {m : Nat} (hl : 2 ^ 52 ≤ m) (hu : m < 2 ^ 53) : m.log2 = 52 := by
  have hz : m ≠ 0 := by omega
  have hle : 52 ≤ m.log2 := (Nat.le_log2 hz).mpr hl
  have hlt : m.log2 < 53 := (Nat.log2_lt hz).mpr hu
  omega

theorem roundWithAccuracy_of_lt (h : 52 ≤ n.log2) (he : -1074 ≤ e + ↑(n.log2 - 52))
    (hq : nearestQuotient n (n.log2 - 52) < 2 ^ 53) :
    roundWithAccuracy .binary64 s n e .exact
      = .finite s (nearestQuotient n (n.log2 - 52)) (e + ↑(n.log2 - 52))
          (Nat.lt_of_lt_of_le (by decide) (nearestQuotient_range h).1) := by
  have hl := (nearestQuotient_range h).1
  have hlog := log2_eq_52 hl hq
  simp only [roundWithAccuracy, shiftToTargetExponent_eq h he, (Shifted.shift _ _).rounded]
  have hagain := shiftToTargetExponent_eq (n := nearestQuotient n (n.log2 - 52))
    (e := e + ↑(n.log2 - 52)) (by omega) (by omega)
  rw [hlog] at hagain
  have hm := (Shifted.shift (nearestQuotient n (n.log2 - 52)) 0).mantissa
  rw [pow_zero, Nat.div_one] at hm
  simp only [hagain, Nat.sub_self, hm]
  rw [dif_neg (by omega)]
  congr 1
  omega

theorem roundWithAccuracy_of_eq (h : 52 ≤ n.log2) (he : -1074 ≤ e + ↑(n.log2 - 52))
    (hq : nearestQuotient n (n.log2 - 52) = 2 ^ 53) :
    roundWithAccuracy .binary64 s n e .exact
      = .finite s (2 ^ 52) (e + ↑(n.log2 - 52) + 1) (by decide) := by
  have hlog : (2 ^ 53 : Nat).log2 = 53 := Nat.log2_two_pow
  simp only [roundWithAccuracy, shiftToTargetExponent_eq h he, (Shifted.shift _ _).rounded, hq]
  have hagain := shiftToTargetExponent_eq (n := 2 ^ 53) (e := e + ↑(n.log2 - 52))
    (by omega) (by omega)
  rw [hlog] at hagain
  simp only [hagain, Nat.reduceSub]
  rw [dif_neg (by decide)]
  rfl

end Rounding

/-- The number is a multiple `z` of `2 ^ (-52)`, written with the most digits a double has. -/
inductive Shows : UnpackedFloat → Int → Prop
  | zero (s : Sign) : Shows (.zero s) 0
  | finite (s : Sign) {m j : Nat} (hm : 0 < m) (hl : 2 ^ 52 ≤ m) (hu : m < 2 ^ 53) (hj : j ≤ 64) :
      Shows (.finite s m (j - 52) hm) (s.apply (m * 2 ^ j))

theorem Shows.positive {m j v : Nat} {e : Int} (hl : 2 ^ 52 ≤ m) (hu : m < 2 ^ 53) (hj : j ≤ 64)
    (he : e = j - 52) (hv : m * 2 ^ j = v) :
    Shows (.finite .positive m e (Nat.lt_of_lt_of_le (by decide) hl)) v := by
  have h := Shows.finite .positive (Nat.lt_of_lt_of_le (by decide) hl) hl hu hj
  rw [Sign.apply] at h
  subst he hv
  exact_mod_cast h

theorem Shows.neg {u : UnpackedFloat} {z : Int} (h : Shows u z) : Shows u.neg (-z) := by
  cases h with
  | zero s => exact .zero _
  | finite s hm hl hu hj =>
    cases s with
    | negative =>
      rw [Sign.apply, Int.neg_neg]
      exact .finite .positive hm hl hu hj
    | positive => exact .finite .negative hm hl hu hj

theorem ofBitVec_unpackSign (s : Sign) (e : BitVec 11) (m : BitVec 52) :
    Sign.ofBitVec (unpackSign (packComponents .binary64 s e m)) = s := by
  simp only [unpackSign, packComponents, BitVec.extractLsb]
  rw [BitVec.extractLsb'_append_eq_of_le (by decide),
    BitVec.extractLsb'_append_eq_of_le (by decide)]
  cases s <;> rfl

theorem Shows.unpack_pack {u : UnpackedFloat} {z : Int} (h : Shows u z) :
    unpack .binary64 (UnpackedFloat.pack .binary64 u) = u := by
  cases h with
  | zero s => cases s <;> rfl
  | @finite s m j hm hl hu hj =>
    have hlog := log2_eq_52 hl hu
    have hbias : ((j : Int) - 52 + Format.binary64.exponentBias
        + Format.binary64.mantissaBitsWithoutImplicit).toNat = j + 1023 := by
      show ((j : Int) - 52 + (1023 : Nat) + (52 : Nat)).toNat = j + 1023
      omega
    have hmax : ¬ 2 ^ Format.binary64.exponentBits ≤ j + 1023 + 1 := by
      show ¬ 2048 ≤ j + 1023 + 1
      omega
    have he : (BitVec.ofNat 11 (j + 1023)).toNat = j + 1023 := by
      rw [BitVec.toNat_ofNat, Nat.mod_eq_of_lt (by omega)]
    have hinf : BitVec.ofNat 11 (j + 1023) ≠ -1#11 := by
      intro heq
      have := congrArg BitVec.toNat heq
      rw [he] at this
      simp at this
      omega
    have hsub : BitVec.ofNat 11 (j + 1023) ≠ 0#11 := by
      intro heq
      have := congrArg BitVec.toNat heq
      rw [he] at this
      simp at this
    have hmant : (1#1 ++ BitVec.ofNat 52 m).toNat = m := by
      rw [BitVec.toNat_append, ← Nat.shiftLeft_add_eq_or_of_lt (BitVec.ofNat 52 m).isLt,
        BitVec.toNat_ofNat, Nat.shiftLeft_eq]
      simp
      omega
    simp only [UnpackedFloat.pack, hlog, hbias]
    rw [if_neg hmax, if_pos (by rfl)]
    simp only [UnpackedFloat.unpack, unpackMantissa_packComponents, unpackExponent_packComponents,
      ofBitVec_unpackSign, if_neg hinf, if_neg hsub, hmant, he]
    have hexp : ((j + 1023 : Nat) : Int)
        - (Format.binary64.exponentBias + Format.binary64.mantissaBitsWithoutImplicit) =
            j - 52 := by
      show ((j + 1023 : Nat) : Int) - ((1023 : Nat) + (52 : Nat)) = j - 52
      omega
    simp only [hexp]

theorem log2_mul_pow {n : Nat} (hn : n ≠ 0) (s : Nat) : (n * 2 ^ s).log2 = n.log2 + s := by
  have hs : 0 < 2 ^ s := Nat.two_pow_pos s
  have hz : n * 2 ^ s ≠ 0 := Nat.mul_ne_zero hn hs.ne'
  apply Nat.le_antisymm
  · have hlt : n * 2 ^ s < 2 ^ (n.log2 + 1) * 2 ^ s :=
      Nat.mul_lt_mul_of_pos_right Nat.lt_log2_self hs
    rw [← pow_add] at hlt
    have := (Nat.log2_lt hz).mpr hlt
    omega
  · apply (Nat.le_log2 hz).mpr
    rw [pow_add]
    exact Nat.mul_le_mul_right _ (Nat.log2_self_le hn)

/-- However far a number is shifted before it is rounded, its nearest double comes out. -/
theorem nearestQuotient_shifted {n s : Nat} (hs : 52 ≤ n.log2 + s) :
    nearestQuotient (n * 2 ^ s) (n.log2 + s - 52) * 2 ^ n.log2 = nearestDouble n * 2 ^ 52 := by
  by_cases h : 52 ≤ n.log2
  · rw [show n.log2 + s - 52 = n.log2 - 52 + s by
      omega, nearestQuotient_scale, nearestDouble, mul_assoc, ← pow_add, Nat.sub_add_cancel h]
  · have hsmall : n ≤ 2 ^ 53 :=
      (Nat.lt_log2_self.trans_le (Nat.pow_le_pow_right (by decide) (by omega))).le
    have hshift : n * 2 ^ s = n * 2 ^ (52 - n.log2) * 2 ^ (n.log2 + s - 52) := by
      rw [mul_assoc, ← pow_add]
      congr 2
      omega
    rw [hshift, nearestQuotient_exact, nearestDouble_eq_self hsmall, mul_assoc, ← pow_add,
      Nat.sub_add_cancel (by omega)]

theorem shows_round {n : Nat} (hn : n ≠ 0) (hlog : n.log2 < 64) {s : Nat} (hs : 52 ≤ n.log2 + s) :
    Shows (roundWithAccuracy .binary64 .positive (n * 2 ^ s) (-s) .exact)
      (nearestDouble n * 2 ^ 52 : Nat) := by
  have hl := log2_mul_pow hn s
  have hk : 52 ≤ (n * 2 ^ s).log2 := by omega
  have hvalue := nearestQuotient_shifted hs
  rw [← hl] at hvalue
  obtain ⟨hlow, hhigh⟩ := nearestQuotient_range hk
  rcases hhigh.lt_or_eq with hlt | heq
  · rw [roundWithAccuracy_of_lt _ hk (by omega) hlt]
    exact .positive hlow hlt (j := n.log2) hlog.le (by omega) hvalue
  · rw [roundWithAccuracy_of_eq _ hk (by omega) heq]
    refine .positive (m := 2 ^ 52) (j := n.log2 + 1) (by decide) (by decide) hlog (by omega) ?_
    rw [← hvalue, heq]
    ring

theorem Shows.unpack {u : UnpackedFloat} {z : Int} (h : Shows u z) :
    Shows (Float.Model.pack u).unpack z := by
  show Shows (UnpackedFloat.unpack .binary64 (UnpackedFloat.pack .binary64 u)) z
  rw [h.unpack_pack]
  exact h

theorem shows_small {n : Nat} (hn : n ≠ 0) (hs : n < 2 ^ 53) :
    Shows (UnpackedFloat.ofNat .binary64 n) (nearestDouble n * 2 ^ 52 : Nat) := by
  have hlog : n.log2 < 53 := (Nat.log2_lt hn).mpr hs
  have htarget : Format.binary64.targetExponent (totalExponent n 0) = (n.log2 : Int) - 52 := by
    simp only [Format.targetExponent, totalExponent, Format.mantissaBits, Format.minExponent]
    norm_num
    omega
  have hdecrease : decreaseExponent n 0 ((n.log2 : Int) - 52)
      = (n * 2 ^ (52 - n.log2), -((52 - n.log2 : Nat) : Int)) := by
    have hk : ((0 : Int) - (n.log2 - 52)).toNat = 52 - n.log2 := by omega
    rw [decreaseExponent, hk, Nat.shiftLeft_eq, Int.zero_sub]
  have hpos : compare (n : Int) 0 = .gt := compare_gt_iff_gt.mpr (by omega)
  have hround : UnpackedFloat.ofNat .binary64 n
      = roundWithAccuracy .binary64 .positive (n * 2 ^ (52 - n.log2)) (-((52 - n.log2 : Nat) : Int))
          .exact := by
    rw [UnpackedFloat.ofNat, UnpackedFloat.ofInt, UnpackedFloat.normalize, hpos]
    show UnpackedFloat.round .binary64 .positive n 0 = _
    rw [UnpackedFloat.round, htarget, hdecrease]
  rw [hround]
  exact shows_round hn (by omega) (by omega)

def unpackedOne : UnpackedFloat :=
  .finite .positive (2 ^ 52) (-52) (by decide)

theorem Shows.mul_one {u : UnpackedFloat} {z : Int} (h : Shows u z) :
    UnpackedFloat.mul .binary64 u unpackedOne = u := by
  cases h with
  | zero s => cases s <;> rfl
  | @finite s m j hm hl hu hj =>
    have hlog : (m * 2 ^ 52).log2 = 104 := by rw [log2_mul_pow hm.ne', log2_eq_52 hl hu]
    have hk : (m * 2 ^ 52).log2 - 52 = 52 := by omega
    have hq := nearestQuotient_exact m 52
    have hround :=
      roundWithAccuracy_of_lt (n := m * 2 ^ 52) (e := (j : Int) - 52 + -52) s (by omega) (by omega)
      (by rw [hk, hq]; exact hu)
    have hsign : s * .positive = s := by cases s <;> rfl
    show roundWithAccuracy .binary64 (s * .positive) (m * 2 ^ 52) _ .exact = _
    rw [hsign, hround]
    simp only [hk, hq]
    congr 1
    omega

theorem ofScientific_zero {n : Nat} (hn : n ≠ 0) :
    UnpackedFloat.ofScientific .binary64 n 0
      = roundWithAccuracy .binary64 .positive (n * 2 ^ 53) (-((53 : Nat) : Int)) .exact := by
  have hbits : Format.binary64.mantissaBits = 53 := rfl
  have hsign : Sign.positive * Sign.positive = .positive := rfl
  rw [UnpackedFloat.ofScientific, dif_neg hn, if_neg (by decide), if_neg (by simp),
    if_pos (by decide)]
  simp only [hbits, UnpackedFloat.mul, hsign, Nat.shiftLeft_eq, Int.toNat_zero, Nat.pow_zero,
    Nat.mul_one, Int.add_zero]

theorem shows_ofNat {n : Nat} (h : n < 2 ^ 64) :
    Shows (Float.ofNat n).toModel.unpack (nearestDouble n * 2 ^ 52 : Nat) := by
  by_cases hn : n = 0
  · subst hn
    have hz : (Float.ofNat 0).toModel.unpack = .zero .positive := by rfl
    rw [hz]
    exact .zero _
  have hlog : n.log2 < 64 := (Nat.log2_lt hn).mpr h
  by_cases hs : n < 2 ^ 53
  · have hone : Float.exactlyRepresentablePowersOfTen[0].toModel.unpack = unpackedOne := by
      with_unfolding_all rfl
    have hword : n.toUInt64.toNat = n := Nat.mod_eq_of_lt h
    have hpath : (Float.ofNat n).toModel = Float.Model.pack
        (UnpackedFloat.mul .binary64 (Float.Model.pack (UnpackedFloat.ofNat .binary64 n)).unpack
          unpackedOne) := by
      show (Float.ofScientific n false 0).toModel = _
      rw [Float.ofScientific, dif_pos ⟨hs, by decide⟩]
      show Float.Model.pack (UnpackedFloat.mul .binary64
        (Float.Model.pack (UnpackedFloat.ofNat .binary64 n.toUInt64.toNat)).unpack
          Float.exactlyRepresentablePowersOfTen[0].toModel.unpack) = _
      rw [hword, hone]
    have hsmall := (shows_small hn hs).unpack
    rw [hpath, hsmall.mul_one]
    exact hsmall.unpack
  · have hpath : (Float.ofNat n).toModel = Float.Model.pack
        (roundWithAccuracy .binary64 .positive (n * 2 ^ 53) (-((53 : Nat) : Int)) .exact) := by
      show (Float.ofScientific n false 0).toModel = _
      rw [Float.ofScientific, dif_neg fun hc => hs hc.1]
      show Float.Model.pack (UnpackedFloat.ofScientific .binary64 n 0) = _
      rw [ofScientific_zero hn]
    rw [hpath]
    exact (shows_round hn hlog (by omega)).unpack

theorem shows_ofInt {z : Int} (h : z.natAbs < 2 ^ 64) :
    Shows (Float.ofInt z).toModel.unpack (nearestWhole z * 2 ^ 52) := by
  cases z with
  | ofNat n =>
    have hn := shows_ofNat (n := n) h
    have hz : nearestWhole (.ofNat n) * 2 ^ 52 = (nearestDouble n * 2 ^ 52 : Nat) := by
      push_cast
      rw [← nearestWhole_natCast]
      rfl
    rw [hz, Float.ofInt]
    exact hn
  | negSucc n =>
    have hn := (shows_ofNat (n := n + 1) h).neg.unpack
    have hz : nearestWhole (.negSucc n) * 2 ^ 52 = -(nearestDouble (n + 1) * 2 ^ 52 : Nat) := by
      push_cast
      rw [← nearestWhole_natCast, ← Int.neg_mul, ← nearestWhole_neg]
      rfl
    rw [hz, Float.ofInt]
    exact hn

theorem shows_nearestFloat (w : Int64) :
    Shows (nearestFloat w).toModel.unpack (nearestWhole w.toInt * 2 ^ 52) := by
  have hl := w.le_toInt
  have hu := w.toInt_lt
  exact shows_ofInt (by omega)

/-- Doubles with all digits are ordered by their exponents first. -/
theorem compare_scaled {m j n k : Nat} (hm : 2 ^ 52 ≤ m) (hm' : m < 2 ^ 53) (hn : 2 ^ 52 ≤ n)
    (hn' : n < 2 ^ 53) :
    (compare ((j : Int) - 52) (k - 52)).then (compare m n) =
      compare ((m : Int) * 2 ^ j) (n * 2 ^ k) := by
  have hless {m j n k : Nat} (hm : m < 2 ^ 53) (hn : 2 ^ 52 ≤ n) (h : j < k) :
      (m : Int) * 2 ^ j < n * 2 ^ k := by
    have hnat : m * 2 ^ j < n * 2 ^ k := by
      calc m * 2 ^ j < 2 ^ 53 * 2 ^ j := Nat.mul_lt_mul_of_pos_right hm (Nat.two_pow_pos j)
        _ = 2 ^ 52 * 2 ^ (j + 1) := by ring
        _ ≤ 2 ^ 52 * 2 ^ k := Nat.mul_le_mul_left _ (Nat.pow_le_pow_right (by decide) h)
        _ ≤ n * 2 ^ k := Nat.mul_le_mul_right _ hn
    exact_mod_cast hnat
  have hsame {m n : Nat} (j : Nat) (h : m < n) : (m : Int) * 2 ^ j < n * 2 ^ j := by
    exact_mod_cast Nat.mul_lt_mul_of_pos_right h (Nat.two_pow_pos j)
  rcases lt_trichotomy j k with h | rfl | h
  · rw [compare_lt_iff_lt.mpr (by omega : (j : Int) - 52 < k - 52),
      compare_lt_iff_lt.mpr (hless hm' hn h)]
    rfl
  · rw [compare_eq_iff_eq.mpr rfl, Ordering.eq_then]
    rcases lt_trichotomy m n with h | rfl | h
    · rw [compare_lt_iff_lt.mpr h, compare_lt_iff_lt.mpr (hsame j h)]
    · rw [compare_eq_iff_eq.mpr rfl, compare_eq_iff_eq.mpr rfl]
    · rw [compare_gt_iff_gt.mpr h, compare_gt_iff_gt.mpr (hsame j h)]
  · rw [compare_gt_iff_gt.mpr (by omega : (j : Int) - 52 > k - 52),
      compare_gt_iff_gt.mpr (hless hn' hm h)]
    rfl

theorem compare_neg (a b : Int) : compare (-a) (-b) = (compare a b).swap := by
  rcases lt_trichotomy a b with h | rfl | h
  · rw [compare_lt_iff_lt.mpr h, compare_gt_iff_gt.mpr (by omega)]
    rfl
  · rw [compare_eq_iff_eq.mpr rfl, compare_eq_iff_eq.mpr rfl]
    rfl
  · rw [compare_gt_iff_gt.mpr h, compare_lt_iff_lt.mpr (by omega)]
    rfl

theorem Shows.compare_eq {u v : UnpackedFloat} {a b : Int} (hu : Shows u a) (hv : Shows v b) :
    UnpackedFloat.compare u v = some (compare a b) := by
  have hpos {m j : Nat} (hm : 0 < m) : (0 : Int) < m * 2 ^ j := by
    exact_mod_cast Nat.mul_pos hm (Nat.two_pow_pos j)
  cases hu with
  | zero s =>
    cases hv with
    | zero t => rfl
    | @finite t n k hn hnl hnu hk =>
      have hb := hpos (j := k) hn
      cases t with
      | negative => exact congrArg some (compare_gt_iff_gt.mpr (neg_neg_of_pos hb)).symm
      | positive => exact congrArg some (compare_lt_iff_lt.mpr hb).symm
  | @finite s m j hm hml hmu hj =>
    have ha := hpos (j := j) hm
    cases hv with
    | zero t =>
      cases s with
      | negative => exact congrArg some (compare_lt_iff_lt.mpr (neg_neg_of_pos ha)).symm
      | positive => exact congrArg some (compare_gt_iff_gt.mpr ha).symm
    | @finite t n k hn hnl hnu hk =>
      have hb := hpos (j := k) hn
      have hscaled := compare_scaled (j := j) (k := k) hml hmu hnl hnu
      cases s <;> cases t
      · refine congrArg some ?_
        rw [Sign.apply, Sign.apply, compare_neg, ← hscaled]
      · exact congrArg some (compare_lt_iff_lt.mpr ((neg_neg_of_pos ha).trans hb)).symm
      · exact congrArg some (compare_gt_iff_gt.mpr ((neg_neg_of_pos hb).trans ha)).symm
      · refine congrArg some ?_
        rw [Sign.apply, Sign.apply, ← hscaled]

theorem lt_iff_of_shows {x y : Float} {a b : Int} (hx : Shows x.toModel.unpack a)
    (hy : Shows y.toModel.unpack b) : x < y ↔ a < b := by
  have hc : x.toModel.unpack.compare y.toModel.unpack = some (compare a b) := hx.compare_eq hy
  have hlt : x < y ↔ (x.toModel.unpack.compare y.toModel.unpack == some .lt) = true :=
    decide_eq_true_iff
  rw [hlt, hc, beq_iff_eq, Option.some.injEq, compare_lt_iff_lt]

theorem beq_iff_of_shows {x y : Float} {a b : Int} (hx : Shows x.toModel.unpack a)
    (hy : Shows y.toModel.unpack b) : (x == y) = true ↔ a = b := by
  have hc : x.toModel.unpack.compare y.toModel.unpack = some (compare a b) := hx.compare_eq hy
  have heq : (x == y) = (x.toModel.unpack.compare y.toModel.unpack == some .eq) := rfl
  rw [heq, hc, beq_iff_eq, Option.some.injEq, compare_eq_iff_eq]

end Narrative
