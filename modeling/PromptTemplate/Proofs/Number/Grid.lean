/-
`Grid.lean` -- the numbers of the grid, and how near to a number they lie.

A multiple of a step that the grid has, of no more than 53 bits, is on the grid: rounding leaves
it as it is (`Binary64.roundMagnitude_multiple`). So rounding twice is rounding once. A number of
the grid below one stays at least 2 ^ -53 away from it, and rounding errs by half a step; so a
part of a whole number, rounded, is never the whole number again (`Binary64.place_of_draw`).
-/
import PromptTemplate.Proofs.Number.Rounding

set_option autoImplicit false

namespace PromptTemplate.Binary64

/-! ## 1. The exponent from above -/

/-- A number lies below twice the power of two that its exponent names. -/
theorem lt_two_zpow_binaryExponent (num : Nat) {den : Nat} (hden : 0 < den) :
    (num : Rat) / den < 2 ^ (binaryExponent num den + 1) := by
  obtain ⟨-, hexponent⟩ | ⟨hlt, hexponent⟩ := binaryExponent_cases num hden
  · -- the difference of the logarithms is never too small by more than one
    have hhigh : (num : Rat) < 2 ^ (num.log2 + 1) := by exact_mod_cast Nat.lt_log2_self
    have hlow : (2 : Rat) ^ den.log2 ≤ den := by exact_mod_cast Nat.log2_self_le (by omega)
    have hparts : (num.log2 : Int) - den.log2 + 1 =
        ((num.log2 + 1 : Nat) : Int) - (den.log2 : Int) := by push_cast; ring
    rw [hexponent, hparts, zpow_sub₀ (by norm_num), zpow_natCast, zpow_natCast]
    exact div_lt_div₀ hhigh hlow (by positivity) (by positivity)
  · rwa [hexponent, sub_add_cancel]

/-- No more than 53 bits are kept. -/
theorem roundHalfEven_scaled_le (num : Nat) {den : Nat} (hden : 0 < den) :
    roundHalfEven (scaled num den (quantum num den)).1 (scaled num den (quantum num den)).2 ≤
      2 ^ 53 := by
  have hscaled := scaled_div num hden (quantum num den)
  have hpos := scaled_pos num hden (quantum num den)
  rcases hpair : scaled num den (quantum num den) with ⟨n, d⟩
  rw [hpair] at hscaled hpos
  dsimp only at hscaled hpos ⊢
  -- the quantum leaves 53 bits before the point, so rounding gives at most the next power of two
  have hbelow : (n : Rat) / d < 2 ^ 53 := by
    rw [hscaled, div_lt_iff₀ (by positivity)]
    calc (num : Rat) / den < 2 ^ (binaryExponent num den + 1) := lt_two_zpow_binaryExponent num hden
      _ ≤ 2 ^ ((53 : Int) + quantum num den) := by
          refine zpow_le_zpow_right₀ (by norm_num) ?_
          unfold quantum
          omega
      _ = 2 ^ 53 * 2 ^ quantum num den := by
          rw [zpow_add₀ (by norm_num)]
          norm_cast
  have hlt : n / d < 2 ^ 53 := by
    rw [Nat.div_lt_iff_lt_mul hpos]
    rw [div_lt_iff₀ (by exact_mod_cast hpos)] at hbelow
    exact_mod_cast hbelow
  exact (roundHalfEven_le n d).trans hlt

/-! ## 2. Multiples of a step -/

/-- What is whole is not rounded. -/
theorem roundHalfEven_mul (m : Nat) {d : Nat} (hd : 0 < d) : roundHalfEven (m * d) d = m := by
  unfold roundHalfEven
  simp only [Nat.mul_mod_left, Nat.mul_div_cancel m hd]
  rw [if_pos (by omega)]

/-- A multiple of its own step is not rounded. -/
theorem roundMagnitude_of_multiple {num den m : Nat} (hden : 0 < den)
    (h : (num : Rat) / den = m * step num den) : roundMagnitude num den = num / den := by
  have hscaled := scaled_div num hden (quantum num den)
  have hpos := scaled_pos num hden (quantum num den)
  rw [roundMagnitude_eq, h]
  rcases hpair : scaled num den (quantum num den) with ⟨n, d⟩
  rw [hpair] at hscaled hpos
  dsimp only at hscaled hpos ⊢
  rw [← step, h, mul_div_cancel_right₀ _ (step_pos _ _).ne',
    div_eq_iff (by exact_mod_cast hpos.ne')]
    at hscaled
  have hwhole : n = m * d := by exact_mod_cast hscaled
  rw [hwhole, roundHalfEven_mul m hpos]

/-- A multiple of 53 bits of a step that the grid has is not rounded: its own step divides that
one, or is twice as large when the multiple is a whole power of two. -/
theorem roundMagnitude_multiple {num den m : Nat} {e : Int} (hnum : 0 < num) (hden : 0 < den)
    (hm : m ≤ 2 ^ 53) (he : -1074 ≤ e) (h : (num : Rat) / den = m * 2 ^ e) :
    roundMagnitude num den = num / den := by
  have hlow := two_zpow_binaryExponent_le hnum hden
  -- the quantum of the value is no coarser than `e`, but where the 53 bits are all used up
  have hquantum : quantum num den ≤ e ∨ m = 2 ^ 53 ∧ quantum num den ≤ e + 1 := by
    rcases hm.lt_or_eq with hlt | rfl
    · have hexponent : (2 : Rat) ^ binaryExponent num den < 2 ^ (53 + e) := by
        calc (2 : Rat) ^ binaryExponent num den ≤ m * 2 ^ e := h ▸ hlow
          _ < 2 ^ 53 * 2 ^ e := mul_lt_mul_of_pos_right (by exact_mod_cast hlt) (by positivity)
          _ = 2 ^ (53 + e) := by
              rw [zpow_add₀ (by norm_num)]
              norm_cast
      rw [zpow_lt_zpow_iff_right₀ (by norm_num)] at hexponent
      unfold quantum
      omega
    · have hexponent : (2 : Rat) ^ binaryExponent num den ≤ 2 ^ (53 + e) := by
        calc (2 : Rat) ^ binaryExponent num den ≤ ((2 ^ 53 : Nat) : Rat) * 2 ^ e := h ▸ hlow
          _ = 2 ^ (53 + e) := by
              rw [zpow_add₀ (by norm_num)]
              norm_cast
      rw [zpow_le_zpow_iff_right₀ (by norm_num)] at hexponent
      unfold quantum
      omega
  rcases hquantum with hle | ⟨rfl, hle⟩
  · -- the step is a part of `2 ^ e`
    refine roundMagnitude_of_multiple (m := m * 2 ^ (e - quantum num den).toNat) hden ?_
    rw [h, step]
    push_cast
    rw [mul_assoc, ← zpow_natCast, ← zpow_add₀ (by norm_num)]
    congr 2
    omega
  · rcases hle.lt_or_eq with hlt | heq
    · refine roundMagnitude_of_multiple (m := 2 ^ 53 * 2 ^ (e - quantum num den).toNat) hden ?_
      rw [h, step]
      push_cast
      rw [mul_assoc, ← zpow_natCast 2 (e - quantum num den).toNat, ← zpow_add₀ (by norm_num)]
      congr 2
      omega
    · refine roundMagnitude_of_multiple (m := 2 ^ 52) hden ?_
      rw [h, step, heq, zpow_add₀ (by norm_num)]
      push_cast
      ring

/-- **Rounding twice is rounding once.** -/
theorem round_of_round {q v : Rat} (hq : 0 ≤ q) (h : round q = .finite v) :
    round v = .finite v := by
  -- a rounded value is a multiple of its quantum with at most 53 bits, which rounding leaves alone
  rcases hq.eq_or_lt with rfl | hq
  · cases h
    rfl
  · rw [round_of_pos hq] at h
    split at h
    · cases h
    · next hfinite =>
      cases h
      have hmultiple := roundMagnitude_eq q.num.natAbs q.den
      have hbits := roundHalfEven_scaled_le q.num.natAbs q.den_pos
      generalize roundHalfEven (scaled q.num.natAbs q.den (quantum q.num.natAbs q.den)).1
        (scaled q.num.natAbs q.den (quantum q.num.natAbs q.den)).2 = m at hmultiple hbits
      rw [hmultiple] at hfinite ⊢
      rcases Nat.eq_zero_or_pos m with rfl | hm
      · rw [Nat.cast_zero, zero_mul]
        rfl
      · have hpos : 0 < (m : Rat) * step q.num.natAbs q.den :=
          mul_pos (by exact_mod_cast hm) (step_pos _ _)
        have hsame := roundMagnitude_multiple (natAbs_num_pos hpos) (Rat.den_pos _) hbits
          (le_max_right _ _) (num_div_den hpos)
        rw [round_of_pos hpos, hsame, num_div_den hpos, if_neg hfinite]

/-- A multiple of 53 bits of a step that the grid has is a number of the grid, below one. -/
theorem round_multiple {m : Nat} {e : Int} (hm : m ≤ 2 ^ 53) (he : -1074 ≤ e)
    (hone : (m : Rat) * 2 ^ e < 1) : round ((m : Rat) * 2 ^ e) = .finite (m * 2 ^ e) := by
  rcases Nat.eq_zero_or_pos m with rfl | hpos
  · rw [Nat.cast_zero, zero_mul]
    rfl
  · have hq : 0 < (m : Rat) * 2 ^ e := mul_pos (by exact_mod_cast hpos) (zpow_pos (by norm_num) _)
    have hsame := roundMagnitude_multiple (natAbs_num_pos hq) (Rat.den_pos _) hm he (num_div_den hq)
    have hlimit : (1 : Rat) ≤ limit := by decide +kernel
    rw [round_of_pos hq, hsame, num_div_den hq, if_neg (not_le.2 (hone.trans_le hlimit))]

/-- The sign makes no difference to rounding. -/
theorem round_neg {q : Rat} (hq : 0 < q) : round (-q) = (round q).neg := by
  have hnum : (-q).num < 0 := Rat.num_neg.2 (neg_neg_of_pos hq)
  rw [round_of_pos hq]
  unfold round
  rw [if_neg hnum.ne]
  dsimp only
  rw [if_pos hnum, Rat.neg_num, Rat.neg_den, Int.natAbs_neg]
  split <;> rfl

/-- Integers of 53 bits are on the grid, negative ones too. -/
theorem round_intCast {z : Int} (h : z.natAbs < exactUpTo) : round z = .finite z := by
  obtain ⟨n, rfl | rfl⟩ := z.eq_nat_or_neg
  · rw [Int.natAbs_natCast] at h
    rw [Int.cast_natCast, round_natCast h]
  · rw [Int.natAbs_neg, Int.natAbs_natCast] at h
    rcases n.eq_zero_or_pos with rfl | hpos
    · rfl
    · rw [Int.cast_neg, Int.cast_natCast, round_neg (by exact_mod_cast hpos), round_natCast h]
      rfl

/-! ## 3. Parts of a whole number -/

/-- Below one the nearest number of the grid is 2 ^ -53 away. -/
theorem le_of_lt_one {v : Rat} (hv : 0 ≤ v) (hgrid : round v = .finite v) (hone : v < 1) :
    v ≤ 1 - 2 ^ (-53 : Int) := by
  have hhalf : (1 : Rat) / 2 ≤ 1 - 2 ^ (-53 : Int) := by norm_num
  rcases hv.eq_or_lt with rfl | hpos
  · exact le_trans (by norm_num) hhalf
  · have hlow := two_zpow_binaryExponent_le (natAbs_num_pos hpos) v.den_pos
    have hhigh := lt_two_zpow_binaryExponent v.num.natAbs v.den_pos
    rw [num_div_den hpos] at hlow hhigh
    have hexponent : binaryExponent v.num.natAbs v.den ≤ -1 := by
      have hlt : (2 : Rat) ^ binaryExponent v.num.natAbs v.den < 2 ^ (0 : Int) := hlow.trans_lt hone
      rw [zpow_lt_zpow_iff_right₀ (by norm_num)] at hlt
      omega
    rcases hexponent.lt_or_eq with hlt | heq
    · -- a number below one half
      refine le_trans (hhigh.le.trans ?_) hhalf
      calc (2 : Rat) ^ (binaryExponent v.num.natAbs v.den + 1) ≤ 2 ^ (-1 : Int) :=
            zpow_le_zpow_right₀ (by norm_num) (by omega)
        _ = 1 / 2 := by norm_num
    · -- from one half on the steps are `2 ^ -53`, and one is a whole number of them
      have hquantum : quantum v.num.natAbs v.den = -53 := by
        unfold quantum
        omega
      rw [round_of_pos hpos] at hgrid
      split at hgrid
      · cases hgrid
      · have hmultiple := Number.finite.inj hgrid
        rw [roundMagnitude_eq, step, hquantum] at hmultiple
        generalize roundHalfEven (scaled v.num.natAbs v.den (-53)).1
          (scaled v.num.natAbs v.den (-53)).2 = m at hmultiple
        have hscale : (2 : Rat) ^ (-53 : Int) * 2 ^ 53 = 1 := by norm_num
        have hless : m < 2 ^ 53 := by
          have hlt : (m : Rat) < 2 ^ 53 := by
            rw [← hmultiple] at hone
            nlinarith
          exact_mod_cast hlt
        have hle : (m : Rat) ≤ 2 ^ 53 - 1 := by
          have hsucc : (m : Rat) + 1 ≤ 2 ^ 53 := by exact_mod_cast hless
          linarith
        rw [← hmultiple]
        calc (m : Rat) * 2 ^ (-53 : Int) ≤ (2 ^ 53 - 1) * 2 ^ (-53 : Int) :=
              mul_le_mul_of_nonneg_right hle (by positivity)
          _ = 1 - 2 ^ (-53 : Int) := by norm_num

/-- Rounding to whole numbers errs by a half. -/
theorem roundHalfEven_le_half (num : Nat) {den : Nat} (hden : 0 < den) :
    (roundHalfEven num den : Rat) ≤ num / den + 1 / 2 := by
  have hcast : (0 : Rat) < den := by exact_mod_cast hden
  have hdivision : (num : Rat) = den * (num / den : Nat) + (num % den : Nat) := by
    exact_mod_cast (Nat.div_add_mod num den).symm
  have hquotient : (num : Rat) / den = (num / den : Nat) + (num % den : Nat) / den := by
    conv_lhs => rw [hdivision]
    rw [add_div, mul_div_cancel_left₀ _ hcast.ne']
  rw [hquotient]
  have hrest : (0 : Rat) ≤ ((num % den : Nat) : Rat) / den := by positivity
  -- up only from one half of the divisor on
  have hup : den ≤ 2 * (num % den) → (1 : Rat) / 2 ≤ ((num % den : Nat) : Rat) / den := by
    intro hle
    rw [div_le_div_iff₀ (by norm_num) hcast]
    have hle' : (den : Rat) ≤ 2 * (num % den : Nat) := by exact_mod_cast hle
    linarith
  unfold roundHalfEven
  dsimp only
  split
  · linarith
  · next hge =>
    have hhalf := hup (by omega)
    split
    · push_cast
      linarith
    · split
      · linarith
      · push_cast
        linarith

/-- Rounding adds at most half a step. -/
theorem roundMagnitude_le_half (num : Nat) {den : Nat} (hden : 0 < den) :
    roundMagnitude num den ≤ num / den + step num den / 2 := by
  have hscaled := scaled_div num hden (quantum num den)
  have hpos := scaled_pos num hden (quantum num den)
  rw [roundMagnitude_eq]
  rcases hpair : scaled num den (quantum num den) with ⟨n, d⟩
  rw [hpair] at hscaled hpos
  dsimp only at hscaled hpos ⊢
  calc (roundHalfEven n d : Rat) * step num den
      ≤ (n / d + 1 / 2) * step num den :=
        mul_le_mul_of_nonneg_right (roundHalfEven_le_half n hpos) (step_pos _ _).le
    _ = num / den + step num den / 2 := by
        rw [hscaled, ← step, add_mul, div_mul_cancel₀ _ (step_pos _ _).ne']
        ring

/-- The step is a 2 ^ 52nd part of the number at most, or the finest one. -/
theorem step_le_part {num den : Nat} (hnum : 0 < num) (hden : 0 < den) :
    step num den ≤ num / den * 2 ^ (-52 : Int) ∨ step num den = 2 ^ (-1074 : Int) := by
  rw [step, quantum]
  rcases max_choice (binaryExponent num den - 52) (-1074) with h | h
  · refine .inl ?_
    rw [h, sub_eq_add_neg, zpow_add₀ (by norm_num)]
    exact mul_le_mul_of_nonneg_right (two_zpow_binaryExponent_le hnum hden) (by positivity)
  · exact .inr (by rw [h])

/-- **A draw finds a place.** The product of a draw below one and of a number of members, rounded
and rounded down, is the place of one of them: the product stays further below the number than
rounding can lift it. -/
theorem place_of_draw {v : Rat} (hv : 0 ≤ v) (hgrid : round v = .finite v) (hone : v < 1)
    {size : Nat} (hsize : 0 < size) (hlimit : size < 2 ^ 32) :
    ∃ place, (Number.mul round (.finite v) (.ofNat size)).floor.toNat? = some place ∧
      place < size := by
  have hcast : (1 : Rat) ≤ size := by exact_mod_cast hsize
  -- a rounded product that is finite and below the number of members has such a place
  have hplace : ∀ w : Rat, 0 ≤ w → w < size →
      ∃ place, (Number.finite w).floor.toNat? = some place ∧ place < size := by
    intro w hw hlt
    obtain ⟨place, hfloor⟩ := Int.eq_ofNat_of_zero_le
      (Rat.le_floor_iff.2 (show ((0 : Int) : Rat) ≤ w by exact_mod_cast hw))
    have hnumber : (Number.finite w).floor = .ofNat place := by
      rw [Number.floor, hfloor]
      rfl
    refine ⟨place, by rw [hnumber, Number.toNat?_ofNat], ?_⟩
    have hle : ((place : Int) : Rat) ≤ w := hfloor ▸ Rat.floor_le w
    have hless : (place : Rat) < size := lt_of_le_of_lt (by exact_mod_cast hle) hlt
    exact_mod_cast hless
  show ∃ place, (round (v * size)).floor.toNat? = some place ∧ place < size
  rcases hv.eq_or_lt with rfl | hpos
  · rw [zero_mul]
    exact hplace 0 le_rfl (by linarith)
  · have hproduct : 0 < v * size := mul_pos hpos (by linarith)
    have hbelow : v * size ≤ size - size * 2 ^ (-53 : Int) := by
      nlinarith [le_of_lt_one hv hgrid hone]
    have hmagnitude := roundMagnitude_le_half (v * size).num.natAbs (v * size).den_pos
    have hstep := step_le_part (natAbs_num_pos hproduct) (v * size).den_pos
    rw [num_div_den hproduct] at hmagnitude hstep
    have hless : roundMagnitude (v * size).num.natAbs (v * size).den < size := by
      have hunit : (0 : Rat) < 2 ^ (-53 : Int) := by positivity
      rcases hstep with hstep | hstep
      · have hpart : (2 : Rat) ^ (-52 : Int) = 2 * 2 ^ (-53 : Int) := by norm_num
        rw [hpart] at hstep
        calc roundMagnitude (v * size).num.natAbs (v * size).den
            ≤ v * size * (1 + 2 ^ (-53 : Int)) := by linarith
          _ ≤ (size - size * 2 ^ (-53 : Int)) * (1 + 2 ^ (-53 : Int)) :=
              mul_le_mul_of_nonneg_right hbelow (by linarith)
          _ = size - size * (2 ^ (-53 : Int) * 2 ^ (-53 : Int)) := by ring
          _ < size := by
              have hsquare := mul_pos (lt_of_lt_of_le one_pos hcast) (mul_pos hunit hunit)
              linarith
      · have htiny : (2 : Rat) ^ (-1074 : Int) ≤ 2 ^ (-53 : Int) :=
          zpow_le_zpow_right₀ (by norm_num) (by norm_num)
        rw [← hstep] at htiny
        nlinarith
    have hfinite : ¬ limit ≤ roundMagnitude (v * size).num.natAbs (v * size).den := by
      have hlarge : (4294967296 : Rat) ≤ limit := by decide +kernel
      have hsmall : (size : Rat) < 4294967296 := by exact_mod_cast hlimit
      linarith
    rw [round_of_pos hproduct, if_neg hfinite]
    refine hplace _ ?_ hless
    rw [roundMagnitude_eq]
    exact mul_nonneg (Nat.cast_nonneg _) (step_pos _ _).le

end PromptTemplate.Binary64
