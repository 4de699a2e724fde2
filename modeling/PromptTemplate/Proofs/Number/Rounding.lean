/-
`Rounding.lean` -- how far rounding goes.

A positive number is rounded to a multiple of the step of its grid. The step is a power of
two that is not above the number itself, or the finest one of all (`Binary64.step_le`). So
rounding at most doubles a number, give or take one (`Binary64.round_le`), and what is not
below the finest step stays so (`Binary64.finest_le_of_round`): it never vanishes.
-/
import Mathlib.Algebra.Order.Field.Power
import Mathlib.Data.Nat.Cast.Order.Field
import Mathlib.Tactic.FieldSimp
import Mathlib.Tactic.Linarith
import Mathlib.Tactic.Positivity
import Mathlib.Tactic.Ring
import PromptTemplate.Proofs.Number.Written

set_option autoImplicit false

namespace PromptTemplate.Binary64

/-! ## 1. The grid -/

/-- The step of the grid that `num / den` is rounded to. -/
def step (num den : Nat) : Rat := 2 ^ quantum num den

theorem step_pos (num den : Nat) : 0 < step num den := zpow_pos (by norm_num) _

/-- A power of two by the parts that shifting takes apart. -/
theorem two_zpow (e : Int) : (2 : Rat) ^ e = 2 ^ e.toNat / 2 ^ (-e).toNat := by
  rw [← zpow_natCast, ← zpow_natCast, ← zpow_sub₀ (by norm_num)]
  congr 1
  omega

/-- Scaling divides by a power of two. -/
theorem scaled_div (num : Nat) {den : Nat} (hden : 0 < den) (e : Int) :
    ((scaled num den e).1 : Rat) / (scaled num den e).2 = num / den / 2 ^ e := by
  rw [scaled, Nat.shiftLeft_eq, Nat.shiftLeft_eq, two_zpow]
  have hne : (den : Rat) ≠ 0 := by exact_mod_cast hden.ne'
  push_cast
  field_simp

theorem scaled_pos (num : Nat) {den : Nat} (hden : 0 < den) (e : Int) :
    0 < (scaled num den e).2 := by
  dsimp only [scaled]
  rw [Nat.shiftLeft_eq]
  exact Nat.mul_pos hden (Nat.two_pow_pos _)

/-- The exponent is the difference of the logarithms, or one less where the power of two that it
names overshoots. -/
theorem binaryExponent_cases (num : Nat) {den : Nat} (hden : 0 < den) :
    ((2 : Rat) ^ ((num.log2 : Int) - den.log2) ≤ num / den ∧
      binaryExponent num den = num.log2 - den.log2) ∨
    ((num : Rat) / den < 2 ^ ((num.log2 : Int) - den.log2) ∧
      binaryExponent num den = num.log2 - den.log2 - 1) := by
  have hscaled := scaled_div num hden ((num.log2 : Int) - (den.log2 : Int))
  have hpos := scaled_pos num hden ((num.log2 : Int) - (den.log2 : Int))
  unfold binaryExponent
  dsimp only
  rcases hpair : scaled num den ((num.log2 : Int) - (den.log2 : Int)) with ⟨n, d⟩
  rw [hpair] at hscaled hpos
  dsimp only at hscaled hpos ⊢
  split
  · next hle =>
    have hone : (1 : Rat) ≤ n / d := by
      rw [le_div_iff₀ (by exact_mod_cast hpos), one_mul]
      exact_mod_cast hle
    rw [hscaled, le_div_iff₀ (by positivity), one_mul] at hone
    exact .inl ⟨hone, rfl⟩
  · next hlt =>
    have hone : (n : Rat) / d < 1 := by
      rw [div_lt_one (by exact_mod_cast hpos)]
      exact_mod_cast not_le.1 hlt
    rw [hscaled, div_lt_one (by positivity)] at hone
    exact .inr ⟨hone, rfl⟩

/-- The exponent of a number is that of a power of two not above it. -/
theorem two_zpow_binaryExponent_le {num den : Nat} (hnum : 0 < num) (hden : 0 < den) :
    (2 : Rat) ^ binaryExponent num den ≤ num / den := by
  obtain ⟨hle, hexponent⟩ | ⟨-, hexponent⟩ := binaryExponent_cases num hden
  · rwa [hexponent]
  · -- one less than the difference of the logarithms is never too large
    have hlow : ((2 : Rat) ^ num.log2) ≤ num := by exact_mod_cast Nat.log2_self_le (by omega)
    have hhigh : (den : Rat) ≤ 2 ^ (den.log2 + 1) := by
      exact_mod_cast (Nat.lt_log2_self (n := den)).le
    have hparts : (num.log2 : Int) - den.log2 - 1 =
        (num.log2 : Int) - ((den.log2 + 1 : Nat) : Int) := by push_cast; ring
    rw [hexponent, hparts, zpow_sub₀ (by norm_num), zpow_natCast, zpow_natCast]
    exact div_le_div₀ (by positivity) hlow (by exact_mod_cast hden) hhigh

/-- The step is not above the number, or is the finest one. -/
theorem step_le {num den : Nat} (hnum : 0 < num) (hden : 0 < den) :
    step num den ≤ num / den ∨ step num den = 2 ^ (-1074 : Int) := by
  rw [step, quantum]
  rcases max_choice (binaryExponent num den - 52) (-1074) with h | h
  · refine .inl ?_
    rw [h]
    calc (2 : Rat) ^ (binaryExponent num den - 52)
        ≤ 2 ^ binaryExponent num den := zpow_le_zpow_right₀ (by norm_num) (by omega)
      _ ≤ num / den := two_zpow_binaryExponent_le hnum hden
  · exact .inr (by rw [h])

/-- No step is finer than the finest one. -/
theorem finest_le_step (num den : Nat) : (2 : Rat) ^ (-1074 : Int) ≤ step num den :=
  zpow_le_zpow_right₀ (by norm_num) (le_max_right _ _)

/-! ## 2. Rounding to the grid -/

theorem div_le_roundHalfEven (num den : Nat) : num / den ≤ roundHalfEven num den := by
  unfold roundHalfEven
  dsimp only
  split
  · exact Nat.le_refl _
  · split
    · exact Nat.le_succ _
    · split
      · exact Nat.le_refl _
      · exact Nat.le_succ _

theorem roundHalfEven_le (num den : Nat) : roundHalfEven num den ≤ num / den + 1 := by
  unfold roundHalfEven
  dsimp only
  split
  · exact Nat.le_succ _
  · split
    · exact Nat.le_refl _
    · split
      · exact Nat.le_succ _
      · exact Nat.le_refl _

/-- A rounded number is a multiple of the step. -/
theorem roundMagnitude_eq (num den : Nat) :
    roundMagnitude num den =
      roundHalfEven (scaled num den (quantum num den)).1 (scaled num den (quantum num den)).2 *
        step num den := by
  unfold roundMagnitude
  dsimp only
  rw [Rat.mkRat_eq_div, Nat.shiftLeft_eq, Nat.shiftLeft_eq, step, two_zpow]
  push_cast
  rw [one_mul, mul_div_assoc]

/-- Rounding adds less than a step. -/
theorem roundMagnitude_le (num : Nat) {den : Nat} (hden : 0 < den) :
    roundMagnitude num den ≤ num / den + step num den := by
  have hscaled := scaled_div num hden (quantum num den)
  rw [roundMagnitude_eq]
  rcases hpair : scaled num den (quantum num den) with ⟨n, d⟩
  rw [hpair] at hscaled
  -- rounding goes at most one step up
  have hround : (roundHalfEven n d : Rat) ≤ n / d + 1 := by
    have hle : (roundHalfEven n d : Rat) ≤ ((n / d : Nat) : Rat) + 1 := by
      exact_mod_cast roundHalfEven_le n d
    have hfloor : ((n / d : Nat) : Rat) ≤ n / d := Nat.cast_div_le
    linarith
  dsimp only at hscaled
  calc (roundHalfEven n d : Rat) * step num den
      ≤ (n / d + 1) * step num den := mul_le_mul_of_nonneg_right hround (step_pos _ _).le
    _ = num / den + step num den := by
        rw [hscaled, ← step, add_mul, one_mul, div_mul_cancel₀ _ (step_pos _ _).ne']

/-- What is not below the step is not rounded below it. -/
theorem step_le_roundMagnitude {num den : Nat} (hden : 0 < den)
    (h : step num den ≤ num / den) : step num den ≤ roundMagnitude num den := by
  have hscaled := scaled_div num hden (quantum num den)
  have hpos := scaled_pos num hden (quantum num den)
  rw [roundMagnitude_eq]
  rcases hpair : scaled num den (quantum num den) with ⟨n, d⟩
  rw [hpair] at hscaled hpos
  dsimp only at hscaled hpos ⊢
  -- a value of one quantum or more keeps at least one of them
  have hle : d ≤ n := by
    have hone : (1 : Rat) ≤ n / d := by
      rw [hscaled, ← step, le_div_iff₀ (step_pos _ _), one_mul]
      exact h
    rw [le_div_iff₀ (by exact_mod_cast hpos), one_mul] at hone
    exact_mod_cast hone
  have hround : 1 ≤ roundHalfEven n d :=
    (Nat.div_pos hle hpos).trans_le (div_le_roundHalfEven n d)
  calc step num den = 1 * step num den := (one_mul _).symm
    _ ≤ roundHalfEven n d * step num den :=
        mul_le_mul_of_nonneg_right (by exact_mod_cast hround) (step_pos _ _).le

/-! ## 3. Numbers -/

theorem num_div_den {q : Rat} (hq : 0 < q) : (q.num.natAbs : Rat) / q.den = q := by
  have hnum : ((q.num.natAbs : Int) : Rat) = q.num := by
    rw [Int.natAbs_of_nonneg (Rat.num_nonneg.2 hq.le)]
  rw [← Int.cast_natCast, hnum, Rat.num_div_den]

theorem natAbs_num_pos {q : Rat} (hq : 0 < q) : 0 < q.num.natAbs :=
  Int.natAbs_pos.2 (Rat.num_pos.2 hq).ne'

theorem round_of_pos {q : Rat} (hq : 0 < q) :
    round q = if limit ≤ roundMagnitude q.num.natAbs q.den then .posInf
      else .finite (roundMagnitude q.num.natAbs q.den) := by
  have hnum := Rat.num_pos.2 hq
  unfold round
  rw [if_neg hnum.ne', if_neg (not_lt.2 hnum.le)]

/-- Rounding at most doubles a number, give or take one. -/
theorem round_le {q v : Rat} (hq : 0 ≤ q) (h : round q = .finite v) : v ≤ 2 * q + 1 := by
  rcases hq.eq_or_lt with rfl | hq
  · cases h
    norm_num
  · rw [round_of_pos hq] at h
    split at h
    · cases h
    · cases h
      have hmagnitude := roundMagnitude_le q.num.natAbs q.den_pos
      rw [num_div_den hq] at hmagnitude
      have hstep := step_le (natAbs_num_pos hq) q.den_pos
      rw [num_div_den hq] at hstep
      have hfinest : (2 : Rat) ^ (-1074 : Int) ≤ 1 :=
        zpow_le_one_of_nonpos₀ (by norm_num) (by norm_num)
      rcases hstep with hstep | hstep <;> linarith

/-- A positive number of the grid is not below the finest step. -/
theorem finest_le {w : Rat} (hw : 0 < w) (h : round w = .finite w) :
    (2 : Rat) ^ (-1074 : Int) ≤ w := by
  rw [round_of_pos hw] at h
  split at h
  · cases h
  -- a positive value on the grid is at least one quantum, and no quantum is finer than the finest
  · have hw' := Number.finite.inj h
    rw [roundMagnitude_eq] at hw'
    have hstep := step_pos w.num.natAbs w.den
    have hpos := hw' ▸ hw
    have hone : (1 : Rat) ≤ roundHalfEven (scaled w.num.natAbs w.den (quantum w.num.natAbs w.den)).1
        (scaled w.num.natAbs w.den (quantum w.num.natAbs w.den)).2 := by
      have hfactor := (mul_pos_iff_of_pos_right hstep).1 hpos
      exact_mod_cast hfactor
    calc (2 : Rat) ^ (-1074 : Int) ≤ step w.num.natAbs w.den := finest_le_step _ _
      _ = 1 * step w.num.natAbs w.den := (one_mul _).symm
      _ ≤ _ := mul_le_mul_of_nonneg_right hone hstep.le
      _ = w := hw'

/-- What is not below the finest step is not rounded below it. -/
theorem finest_le_of_round {q v : Rat} (h : (2 : Rat) ^ (-1074 : Int) ≤ q)
    (hv : round q = .finite v) :
    (2 : Rat) ^ (-1074 : Int) ≤ v := by
  have hq : 0 < q := (zpow_pos (by norm_num) _).trans_le h
  have hstep : step q.num.natAbs q.den ≤ q := by
    have hstep := step_le (natAbs_num_pos hq) q.den_pos
    rw [num_div_den hq] at hstep
    rcases hstep with hstep | hstep
    · exact hstep
    · rwa [hstep]
  rw [round_of_pos hq] at hv
  split at hv
  · cases hv
  · cases hv
    have hround : step q.num.natAbs q.den ≤ roundMagnitude q.num.natAbs q.den :=
      step_le_roundMagnitude q.den_pos (by rw [num_div_den hq]; exact hstep)
    exact (finest_le_step _ _).trans hround

end PromptTemplate.Binary64
