import Mathlib.Data.Rat.Floor
import Narrative.Proofs.Course.Eval

/-! Arithmetic of whole numbers. An operator has the exact result, rounded down where it divides, or
is refused: where no word holds the result, and where the divisor is zero. -/

namespace Narrative

section Floor

variable {a b : Int}

theorem tmod_neg_iff (h : a.tmod b ≠ 0) : a.tmod b < 0 ↔ a < 0 := by
  have hdvd : ¬ b ∣ a := fun hd => h (Int.tmod_eq_zero_of_dvd hd)
  have hsign : (a.tmod b).sign = a.sign := by rw [Int.sign_tmod, if_neg hdvd]
  rw [← Int.sign_eq_neg_one_iff_neg, hsign, Int.sign_eq_neg_one_iff_neg]

theorem fdiv_eq_tdiv_sub (hb : b ≠ 0) :
    a.fdiv b = if a.tmod b ≠ 0 ∧ ¬ (a < 0 ↔ b < 0) then a.tdiv b - 1 else a.tdiv b := by
  rw [Int.fdiv_eq_tdiv]
  by_cases hdvd : b ∣ a
  · simp [hdvd, Int.tmod_eq_zero_of_dvd hdvd]
  · have hmod : a.tmod b ≠ 0 := fun h => hdvd (Int.dvd_of_tmod_eq_zero h)
    rcases Int.lt_or_gt_of_ne hb with hneg | hpos
    · have hsign := Int.sign_eq_neg_one_of_neg hneg
      by_cases ha : a < 0 <;> simp [hdvd, hmod, hneg, ha, hsign] <;> omega
    · have hsign := Int.sign_eq_one_of_pos hpos
      by_cases ha : a < 0 <;> simp [hdvd, hmod, ha, hsign] <;> omega

theorem fmod_eq_tmod_add (hb : b ≠ 0) :
    a.fmod b = if a.tmod b ≠ 0 ∧ ¬ (a.tmod b < 0 ↔ b < 0) then a.tmod b + b else a.tmod b := by
  have hcond : (a.tmod b ≠ 0 ∧ ¬ (a.tmod b < 0 ↔ b < 0)) ↔ (a.tmod b ≠ 0 ∧ ¬ (a < 0 ↔ b < 0)) :=
    and_congr_right fun h => by rw [tmod_neg_iff h]
  rw [Int.fmod_def, fdiv_eq_tdiv_sub hb, Int.tmod_def]
  rw [Int.tmod_def] at hcond
  simp only [hcond]
  split
  · rw [Int.mul_sub]
    omega
  · rfl

theorem fmod_lt_and_sign (a : Int) (hb : b ≠ 0) :
    (a.fmod b).natAbs < b.natAbs ∧ (a.fmod b = 0 ∨ (a.fmod b).sign = b.sign) := by
  rcases Int.lt_or_gt_of_ne hb with hneg | hpos
  · have hopp := Int.neg_fmod_neg a b
    have hlow := Int.fmod_nonneg_of_pos (-a) (b := -b) (by omega)
    have hhigh := Int.fmod_lt_of_pos (-a) (b := -b) (by omega)
    refine ⟨by omega, ?_⟩
    rcases Int.lt_or_eq_of_le (show a.fmod b ≤ 0 by omega) with hlt | hzero
    · exact .inr ((Int.sign_eq_neg_one_of_neg hlt).trans (Int.sign_eq_neg_one_of_neg hneg).symm)
    · exact .inl hzero
  · have hlow := Int.fmod_nonneg_of_pos a hpos
    have hhigh := Int.fmod_lt_of_pos a hpos
    refine ⟨by omega, ?_⟩
    rcases Int.lt_or_eq_of_le hlow with hlt | hzero
    · exact .inr ((Int.sign_eq_one_of_pos hlt).trans (Int.sign_eq_one_of_pos hpos).symm)
    · exact .inl hzero.symm

theorem floor_div_eq_fdiv (a b : Int) : ⌊(a / b : ℚ)⌋ = a.fdiv b := by
  obtain ⟨n, rfl | rfl⟩ := b.eq_nat_or_neg
  · rw [Int.cast_natCast, Rat.floor_intCast_div_natCast,
      Int.fdiv_eq_ediv_of_nonneg a (Int.natCast_nonneg n)]
  · have hneg : (a / ((-(n : Int) : Int) : ℚ) : ℚ) = ((-a : Int) : ℚ) / (n : ℚ) := by
      push_cast
      rw [div_neg, neg_div]
    rw [hneg, Rat.floor_intCast_div_natCast, ← Int.neg_fdiv_neg, Int.neg_neg,
      Int.fdiv_eq_ediv_of_nonneg _ (Int.natCast_nonneg n)]

end Floor

/-- The outcome is `n` as a whole number, or an overflow if no word holds `n`. -/
structure IsExact (r : Except EvalError Value) (n : Int) : Prop where
  value : ∀ v, r = .ok v ↔ ∃ w : Int64, w.toInt = n ∧ v = .int w
  error : ∀ e, r = .error e ↔ e = .overflow ∧ ∀ w : Int64, w.toInt ≠ n

namespace IsExact

variable {n : Int}

theorem of_toInt {w : Int64} (h : w.toInt = n) : IsExact (.ok (.int w)) n := by
  subst h
  refine ⟨fun v => ⟨fun hv => ⟨w, rfl, (Except.ok.inj hv).symm⟩, ?_⟩,
    fun e => ⟨nofun, fun he => absurd rfl (he.2 w)⟩⟩
  rintro ⟨w', hw', rfl⟩
  rw [Int64.toInt_inj.mp hw']

theorem overflow (h : ∀ w : Int64, w.toInt ≠ n) : IsExact (.error .overflow) n := by
  refine ⟨fun v => ⟨nofun, fun ⟨w, hw, _⟩ => absurd hw (h w)⟩,
    fun e => ⟨fun he => ⟨?_, h⟩, fun he => ?_⟩⟩
  · exact (Except.error.inj he).symm
  · rw [he.1]

end IsExact

namespace BinaryOp

/-- The operator has the result `n` on whole numbers. Quotients are rounded down, and remainders are
to those. -/
inductive Yields (a b : Int) : BinaryOp → Int → Prop
  | add : Yields a b .add (a + b)
  | sub : Yields a b .sub (a - b)
  | mul : Yields a b .mul (a * b)
  | floorDiv (hb : b ≠ 0) : Yields a b .floorDiv ⌊(a / b : ℚ)⌋
  | rem (hb : b ≠ 0) : Yields a b .rem (a - b * ⌊(a / b : ℚ)⌋)

def wholes : List BinaryOp :=
  [.add, .sub, .mul, .floorDiv, .rem]

theorem isExact_exact (n : Int) : IsExact (exact n) n := by
  unfold exact
  cases hn : int64? n with
  | some w => exact .of_toInt (toInt_of_int64? hn)
  | none =>
    refine .overflow fun w hw => ?_
    rw [← hw, int64?_toInt] at hn
    cases hn

theorem toInt_ofInt_ediv {n d : Int} (hd : 0 < d) (hlow : -9223372036854775808 * d ≤ n)
    (hhigh : n < 9223372036854775808 * d) : (Int64.ofInt (n / d)).toInt = n / d := by
  have hle : -9223372036854775808 ≤ n / d := (Int.le_ediv_iff_mul_le hd).mpr hlow
  have hlt : n / d < 9223372036854775808 := (Int.ediv_lt_iff_lt_mul hd).mpr hhigh
  exact Int64.toInt_ofInt_of_le (by omega) (by omega)

section Words

variable {a b : Int64}

theorem toInt_ne_zero (hb : b ≠ 0) : b.toInt ≠ 0 :=
  fun h => hb (Int64.toInt_inj.mp h)

theorem wraps_iff : wraps a b = true ↔ a.toInt = leastWord ∧ b.toInt = -1 := by
  have ha : a = Int64.minValue ↔ a.toInt = leastWord := Int64.toInt_inj.symm
  have hb : b = -1 ↔ b.toInt = -1 := Int64.toInt_inj.symm
  simp [wraps, ha, hb]

theorem toInt_div (h : wraps a b = false) : (a / b).toInt = a.toInt.tdiv b.toInt := by
  by_cases hb : b = -1
  · have ha : a ≠ Int64.minValue := by
      rintro rfl
      simp [wraps, hb] at h
    exact Int64.toInt_div_of_ne_left a b ha
  · exact Int64.toInt_div_of_ne_right a b hb

theorem toInt_ofInt_fdiv (hb : b ≠ 0) (h : wraps a b = false) :
    (Int64.ofInt (a.toInt.fdiv b.toInt)).toInt = a.toInt.fdiv b.toInt := by
  have hwraps : ¬ (a.toInt = -9223372036854775808 ∧ b.toInt = -1) :=
    fun hw => by simp [wraps_iff.mpr hw] at h
  have hlow := a.le_toInt
  have hhigh := a.toInt_lt
  rcases Int.lt_or_gt_of_ne (toInt_ne_zero hb) with hneg | hpos
  · rw [← Int.neg_fdiv_neg, Int.fdiv_eq_ediv_of_nonneg _ (by omega)]
    exact toInt_ofInt_ediv (by omega) (by omega) (by omega)
  · rw [Int.fdiv_eq_ediv_of_nonneg _ (by omega)]
    exact toInt_ofInt_ediv hpos (by omega) (by omega)

theorem mod_ne_zero_iff : a % b ≠ 0 ↔ a.toInt.tmod b.toInt ≠ 0 := by
  rw [← Int64.toInt_mod]
  exact not_congr Int64.toInt_inj.symm

theorem floorQuotient_eq (hb : b ≠ 0) (hw : wraps a b = false) :
    floorQuotient a b = .ok (Int64.ofInt (a.toInt.fdiv b.toInt)) := by
  have hdiv : a / b = Int64.ofInt (a.toInt.tdiv b.toInt) := by
    rw [← toInt_div hw, Int64.ofInt_toInt]
  rw [floorQuotient, if_neg hb, hw, fdiv_eq_tdiv_sub (toInt_ne_zero hb)]
  simp only [mod_ne_zero_iff, Int64.lt_iff_toInt_lt, Int64.toInt_zero]
  refine congrArg Except.ok ?_
  split
  · rw [Int64.ofInt_sub, ← hdiv]
    rfl
  · exact hdiv

theorem floorRemainder_eq (hb : b ≠ 0) (hw : wraps a b = false) :
    floorRemainder a b = .ok (Int64.ofInt (a.toInt.fmod b.toInt)) := by
  have hmod : a % b = Int64.ofInt (a.toInt.tmod b.toInt) := by
    rw [← Int64.toInt_mod, Int64.ofInt_toInt]
  rw [floorRemainder, if_neg hb, hw, fmod_eq_tmod_add (toInt_ne_zero hb)]
  simp only [mod_ne_zero_iff, Int64.lt_iff_toInt_lt, Int64.toInt_zero, Int64.toInt_mod]
  refine congrArg Except.ok ?_
  split
  · rw [Int64.ofInt_add, ← hmod, Int64.ofInt_toInt]
  · exact hmod

theorem isExact_floorQuotient (hb : b ≠ 0) :
    IsExact ((floorQuotient a b).map .int) (a.toInt.fdiv b.toInt) := by
  cases hw : wraps a b with
  | true =>
    obtain ⟨hmin, hone⟩ := wraps_iff.mp hw
    have hquot : a.toInt.fdiv b.toInt = 9223372036854775808 := by
      rw [hmin, hone]
      rfl
    rw [floorQuotient, if_neg hb, hw]
    refine .overflow fun w h => ?_
    have hlt := w.toInt_lt
    omega
  | false =>
    rw [floorQuotient_eq hb hw]
    exact .of_toInt (toInt_ofInt_fdiv hb hw)

theorem isExact_floorRemainder (hb : b ≠ 0) (hw : wraps a b = false) :
    IsExact ((floorRemainder a b).map .int) (a.toInt.fmod b.toInt) := by
  have hsmall := (fmod_lt_and_sign a.toInt (toInt_ne_zero hb)).1
  have hlow := b.le_toInt
  have hhigh := b.toInt_lt
  rw [floorRemainder_eq hb hw]
  exact .of_toInt (Int64.toInt_ofInt_of_le (by omega) (by omega))

theorem isExact_apply {op : BinaryOp} {n : Int} (h : Yields a.toInt b.toInt op n)
    (hrem : ¬ (op = .rem ∧ wraps a b = true)) : IsExact (apply op (.int a) (.int b)) n := by
  cases h with
  | add => exact isExact_exact _
  | sub => exact isExact_exact _
  | mul => exact isExact_exact _
  | floorDiv hb =>
    rw [floor_div_eq_fdiv]
    exact isExact_floorQuotient fun h => hb (Int64.toInt_inj.mpr h)
  | rem hb =>
    rw [floor_div_eq_fdiv, ← Int.fmod_def]
    exact isExact_floorRemainder (fun h => hb (Int64.toInt_inj.mpr h)) (by simpa using hrem)

theorem apply_rem_of_wraps (h : wraps a b = true) :
    apply .rem (.int a) (.int b) = .error .overflow := by
  have hb : b ≠ 0 := by
    rintro rfl
    exact absurd (wraps_iff.mp h).2 (by decide)
  change (floorRemainder a b).map Value.int = _
  rw [floorRemainder, if_neg hb, h]
  rfl

theorem exists_yields {op : BinaryOp} (hop : op ∈ wholes) {m d : Int}
    (hd : op = .floorDiv ∨ op = .rem → d ≠ 0) : ∃ n, Yields m d op n := by
  simp only [wholes, List.mem_cons, List.not_mem_nil, or_false] at hop
  rcases hop with rfl | rfl | rfl | rfl | rfl
  · exact ⟨_, .add⟩
  · exact ⟨_, .sub⟩
  · exact ⟨_, .mul⟩
  · exact ⟨_, .floorDiv (hd (.inl rfl))⟩
  · exact ⟨_, .rem (hd (.inr rfl))⟩

theorem apply_eq_divisionByZero_iff {op : BinaryOp} (hop : op ∈ wholes) :
    apply op (.int a) (.int b) = .error .divisionByZero ↔ (op = .floorDiv ∨ op = .rem) ∧ b = 0 := by
  constructor
  · intro h
    by_contra hne
    -- Otherwise there is an exact result, so an overflow is the only way to refuse it.
    obtain ⟨n, hn⟩ := exists_yields hop (m := a.toInt) (d := b.toInt) fun hdiv hb =>
      hne ⟨hdiv, Int64.toInt_inj.mp hb⟩
    by_cases hrem : op = .rem ∧ wraps a b = true
    · rw [hrem.1, apply_rem_of_wraps hrem.2] at h
      cases h
    · exact absurd ((isExact_apply hn hrem).error _ |>.mp h).1 nofun
  · rintro ⟨rfl | rfl, rfl⟩ <;> rfl

theorem quotient_remainder {q m : Int64} (hq : apply .floorDiv (.int a) (.int b) = .ok (.int q))
    (hm : apply .rem (.int a) (.int b) = .ok (.int m)) :
    a.toInt = b.toInt * q.toInt + m.toInt ∧ m.toInt.natAbs < b.toInt.natAbs ∧
      (m = 0 ∨ m.toInt.sign = b.toInt.sign) := by
  have hb : b ≠ 0 := by
    rintro rfl
    cases hq
  have hw : wraps a b = false := by
    by_contra hw
    rw [apply_rem_of_wraps (by simpa using hw)] at hm
    cases hm
  obtain ⟨q', hq', hv⟩ := ((isExact_floorQuotient hb).value _).mp hq
  obtain ⟨m', hm', hv'⟩ := ((isExact_floorRemainder hb hw).value _).mp hm
  cases hv
  cases hv'
  rw [← Int64.toInt_inj, hq', hm']
  exact ⟨(Int.mul_fdiv_add_fmod _ _).symm, fmod_lt_and_sign _ (toInt_ne_zero hb)⟩

end Words

end BinaryOp

namespace Env

variable {env : Env} {scopes : List Scope} {left right : Expr} {s t u : Scene} {a b : Int64}

/-- Operators on whole numbers have the exact result if a word holds it. They overflow if none does,
and the remainder also where the quotient does. Division by zero is all that is refused as that. -/
theorem eval_whole_numbers (hleft : (env.eval scopes left).run s = (.ok (.int a), t))
    (hright : (env.eval scopes right).run t = (.ok (.int b), u)) :
    (∀ op n, op.Yields a.toInt b.toInt n → ¬ (op = .rem ∧ a = Int64.minValue ∧ b = -1) →
        IsExact ((env.eval scopes (.binary op left right)).run s).1 n) ∧
      (a = Int64.minValue ∧ b = -1 →
        ((env.eval scopes (.binary .rem left right)).run s).1 = .error .overflow) ∧
      (∀ op ∈ BinaryOp.wholes, ((env.eval scopes (.binary op left right)).run s).1 =
        .error .divisionByZero ↔
        (op = .floorDiv ∨ op = .rem) ∧ b = 0) ∧
      IsExact ((env.eval scopes (.unary .neg left)).run s).1 (-a.toInt) ∧
      ∀ q m, ((env.eval scopes (.binary .floorDiv left right)).run s).1 = .ok (.int q) →
        ((env.eval scopes (.binary .rem left right)).run s).1 = .ok (.int m) →
        a.toInt = b.toInt * q.toInt + m.toInt ∧ m.toInt.natAbs < b.toInt.natAbs ∧
          (m = 0 ∨ m.toInt.sign = b.toInt.sign) := by
  have heval {op : BinaryOp} (hop : op ∈ BinaryOp.wholes) :
      ((env.eval scopes (.binary op left right)).run s).1 = op.apply (.int a) (.int b) := by
    have hand : op ≠ .and := fun he => absurd (he ▸ hop) (by decide)
    have hor : op ≠ .or := fun he => absurd (he ▸ hop) (by decide)
    rw [eval_binary hand hor hleft hright]
  have hwraps : BinaryOp.wraps a b = true ↔ a = Int64.minValue ∧ b = -1 := by simp [BinaryOp.wraps]
  refine ⟨fun op n h hrem => ?_, fun h => ?_, fun op hop => ?_, ?_, fun q m hq hm => ?_⟩
  · rw [heval (by cases h <;> decide)]
    exact BinaryOp.isExact_apply h (by rwa [hwraps])
  · rw [heval (by decide)]
    exact BinaryOp.apply_rem_of_wraps (hwraps.mpr h)
  · rw [heval hop]
    exact BinaryOp.apply_eq_divisionByZero_iff hop
  · rw [Env.eval, Eval.run_bind, hleft]
    exact BinaryOp.isExact_exact _
  · rw [heval (by decide)] at hq hm
    exact BinaryOp.quotient_remainder hq hm

/-- The remainder of the least word to minus one is refused, though it is zero. -/
theorem least_word_remainder :
    ((Registry.core.env ∅).eval []
      (.binary .sub (.lit (.int (-9223372036854775807))) (.lit (.int 1)))).run ⟨{}, ⟨0⟩⟩ =
        (.ok (.int Int64.minValue), ⟨{}, ⟨0⟩⟩) ∧
      BinaryOp.rem.Yields Int64.minValue.toInt (-1 : Int64).toInt 0 ∧
      ((Registry.core.env ∅).eval [] (.binary .rem
          (.binary .sub (.lit (.int (-9223372036854775807))) (.lit (.int 1)))
            (.lit (.int (-1))))).run ⟨{}, ⟨0⟩⟩ =
        (.error .overflow, ⟨{}, ⟨0⟩⟩) := by
  have hzero : Int64.minValue.toInt - (-1 : Int64).toInt *
      ⌊(Int64.minValue.toInt / (-1 : Int64).toInt : ℚ)⌋ = 0 := by
    rw [floor_div_eq_fdiv]
    decide
  exact ⟨rfl, hzero ▸ .rem (by decide), rfl⟩

theorem eval_whole_numbers_negative :
    ((Registry.core.env ∅).eval [] (.binary .floorDiv (.lit (.int (-7))) (.lit (.int 2)))).run
      ⟨{}, ⟨0⟩⟩ =
        (.ok (.int (-4)), ⟨{}, ⟨0⟩⟩) ∧
      ((Registry.core.env ∅).eval [] (.binary .rem (.lit (.int (-7))) (.lit (.int 2)))).run
        ⟨{}, ⟨0⟩⟩ =
        (.ok (.int 1), ⟨{}, ⟨0⟩⟩) ∧
      (-7 : Int64).toInt = (2 : Int64).toInt * (-4 : Int64).toInt + (1 : Int64).toInt := by
  have h :=
    @eval_whole_numbers (Registry.core.env ∅) [] (.lit (.int (-7))) (.lit (.int 2)) ⟨{}, ⟨0⟩⟩
      ⟨{}, ⟨0⟩⟩ ⟨{}, ⟨0⟩⟩
    (-7) 2 rfl rfl
  exact ⟨rfl, rfl, (h.2.2.2.2 (-4) 1 rfl rfl).1⟩

end Env

end Narrative
