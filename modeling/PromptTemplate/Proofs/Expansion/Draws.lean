/-
`Draws.lean` -- what a draw can come to.

Draws lie between zero and one, one left out. On the grid a sum or a product can lie off its
exact value and even be infinite, so there nothing is said but what rendering needs to go on:
a number of picks stays below a bound that does not depend on the draw, and an index by
weight is the index of an option. With exact numbers an index is drawn just when its weight
is above zero, and every candidate has its own part of the unit.
-/
import PromptTemplate.Expansion.Random
import PromptTemplate.Proofs.Number.Rounding

set_option autoImplicit false

namespace PromptTemplate

/-! ## 1. Sources -/

/-- Every draw is a number between zero and one, one left out. -/
def Source.InUnit (source : Source) : Prop :=
  ∀ draw, ∃ value, source draw = .finite value ∧ 0 ≤ value ∧ value < 1

/-- A seeded source draws between zero and one. -/
theorem Source.seeded_inUnit (seed : UInt32) : (Source.seeded seed).InUnit := by
  intro draw
  refine ⟨mkRat (word seed draw).toNat 4294967296, rfl, mkRat_natCast_nonneg _ _, ?_⟩
  have hword : ((word seed draw).toNat : Rat) < 4294967296 := by
    exact_mod_cast (word seed draw).toNat_lt
  rw [Rat.mkRat_eq_div]
  push_cast
  rw [div_lt_one (by norm_num)]
  exact hword

/-! ## 2. How often a variant picks -/

/-- If the number is finite, it lies between zero and the bound. -/
def Number.AtMost (bound : Rat) (n : Number) : Prop := ∀ v, n = .finite v → 0 ≤ v ∧ v ≤ bound

namespace Number.AtMost

variable {x y : Rat} {a b : Number}

/-- A natural number is at most itself. -/
theorem ofNat (n : Nat) : (Number.ofNat n).AtMost n := by
  intro v hv
  cases hv
  exact ⟨Nat.cast_nonneg n, le_refl _⟩

/-- Rounding at most doubles, and adds one for what is small. -/
theorem round {q : Rat} (hq : 0 ≤ q) (hx : q ≤ x) : (Binary64.round q).AtMost (2 * x + 1) := by
  intro v hv
  have hle := Binary64.round_le hq hv
  rcases Binary64.round_nonneg hq with hinf | ⟨v', hv', hv''⟩
  · rw [hv] at hinf
    cases hinf
  · rw [hv] at hv''
    cases hv''
    exact ⟨hv', by linarith⟩

/-- So does a sum that is rounded. -/
theorem add (ha : a.AtMost x) (hb : b.AtMost y) :
    (Number.add Binary64.round a b).AtMost (2 * (x + y) + 1) := by
  cases a with
  | finite p =>
    cases b with
    | finite q =>
      obtain ⟨hp, hpx⟩ := ha p rfl
      obtain ⟨hq, hqy⟩ := hb q rfl
      exact round (add_nonneg hp hq) (add_le_add hpx hqy)
    | _ => exact fun v hv => by cases hv
  | _ => cases b <;> exact fun v hv => by cases hv

/-- A part of an infinity is an infinity, or no number. -/
private theorem scale_infinity {draw : Rat} (positive : Bool) :
    (if draw = 0 then Number.nan
      else if decide (0 < draw) = positive then .posInf else .negInf).AtMost x := by
  intro v hv
  split at hv
  · cases hv
  · split at hv <;> cases hv

/-- A part of a number is at most the number, up to rounding. -/
theorem scale {draw : Rat} (hdraw : 0 ≤ draw) (hone : draw < 1) (ha : a.AtMost x) :
    (Number.mul Binary64.round (.finite draw) a).AtMost (2 * x + 1) := by
  cases a with
  | finite p =>
    obtain ⟨hp, hpx⟩ := ha p rfl
    refine round (mul_nonneg hdraw hp) ?_
    exact (mul_le_of_le_one_left hp hone.le).trans hpx
  | nan => exact fun v hv => by cases hv
  | posInf => exact scale_infinity true
  | negInf => exact scale_infinity false

/-- Rounding down does not exceed. -/
theorem floor (ha : a.AtMost x) : a.floor.AtMost x := by
  cases a with
  | finite p =>
    intro v hv
    cases hv
    obtain ⟨hp, hpx⟩ := ha p rfl
    exact ⟨by exact_mod_cast Rat.le_floor_iff.2 (by simpa using hp), (Rat.floor_le p).trans hpx⟩
  | _ => exact fun v hv => by cases hv

/-- A loop runs no more often than its bound says. -/
theorem loopCount_le {n : Nat} (ha : a.AtMost n) : a.loopCount ≤ n := by
  cases a with
  | finite p =>
    obtain ⟨-, hp⟩ := ha p rfl
    rw [Number.loopCount, Int.toNat_le, Rat.ceil_le_iff]
    exact_mod_cast hp
  | _ => exact Nat.zero_le _

end Number.AtMost

/-- More than a number between two bounds can be drawn as. -/
def mostDrawn (least most : Nat) : Nat := 2 * least + 16 * most + 23

/-- The number of picks stays below a bound, whatever is drawn. -/
theorem loopCount_randomInt_le {source : Source} (hsource : source.InUnit)
    (drawn least most : Nat) :
    (randomInt Binary64.round source drawn (.ofNat least) (.ofNat most)).1.loopCount ≤
      mostDrawn least most := by
  unfold randomInt
  split
  · calc (Number.ofNat least).loopCount ≤ least := (Number.AtMost.ofNat least).loopCount_le
      _ ≤ mostDrawn least most := by unfold mostDrawn; omega
  -- rounding may move the width and the product up, but never beyond twice the bound
  · next hless =>
    have hle : (least : Rat) ≤ most := by
      by_contra h
      exact hless (decide_eq_true (le_of_not_ge h))
    obtain ⟨draw, hdraw, hnonneg, hone⟩ := hsource drawn
    have hwidth : (Number.sub Binary64.round (.ofNat most) (.ofNat least)).AtMost
        (2 * most + 1) := by
      refine Number.AtMost.round ?_ ?_
      · linarith
      · have hleast : (0 : Rat) ≤ least := Nat.cast_nonneg least
        linarith
    have hdrawn := ((hwidth.add (.ofNat 1)).scale hnonneg hone).floor
    refine Number.AtMost.loopCount_le fun v hv => ?_
    rw [hdraw] at hv
    obtain ⟨hv', hle'⟩ := (Number.AtMost.ofNat least).add hdrawn v hv
    refine ⟨hv', hle'.trans ?_⟩
    unfold mostDrawn
    push_cast
    linarith

/-! ## 3. Indices by weight, on the grid -/

section Weighted

variable {weights : List Rat} {round : Rounding}

/-- The index of a piece is that of a weight. -/
theorem indexAt_lt {weights : List Number} {remaining : Number} {index : Nat}
    (h : indexAt round remaining weights = some index) : index < weights.length := by
  induction weights generalizing remaining index with
  | nil => cases h
  | cons weight weights ih =>
    rw [indexAt] at h
    split at h
    · cases h
      exact Nat.succ_pos _
    · obtain ⟨later, hlater, rfl⟩ := Option.map_eq_some_iff.1 h
      exact Nat.succ_lt_succ (ih hlater)

/-- So is the last index with a weight above zero. -/
theorem lastPositive_lt {weights : List Number} {index : Nat}
    (h : lastPositive weights = some index) : index < weights.length := by
  induction weights generalizing index with
  | nil => cases h
  | cons weight weights ih =>
    rw [lastPositive] at h
    split at h
    · next later hlater =>
      cases h
      exact Nat.succ_lt_succ (ih hlater)
    · split at h
      · cases h
        exact Nat.succ_pos _
      · cases h

/-- There is one if any weight is above zero. -/
theorem lastPositive_isSome {weights : List Number}
    (h : ∃ weight ∈ weights, Number.lt 0 weight = true) :
    (lastPositive weights).isSome = true := by
  induction weights with
  | nil =>
    obtain ⟨weight, hmem, -⟩ := h
    cases hmem
  | cons weight weights ih =>
    rw [lastPositive]
    split
    · rfl
    · next hlast =>
      -- no later weight is above zero, so this one is
      obtain ⟨other, hmem, hpos⟩ := h
      rcases List.mem_cons.1 hmem with rfl | hmem
      · rw [if_pos hpos]
        rfl
      · have hsome := ih ⟨other, hmem, hpos⟩
        rw [hlast] at hsome
        cases hsome

/-- A sum that is above zero and stays so: it is not below the finest step of the grid, or
too large for a number. -/
def Number.Weighs (n : Number) : Prop :=
  n = .posInf ∨ ∃ v, n = .finite v ∧ (2 : Rat) ^ (-1074 : Int) ≤ v

/-- What weighs is not below zero. -/
theorem Number.Weighs.le_eq_false {n : Number} (h : n.Weighs) : n.le 0 = false := by
  rcases h with rfl | ⟨v, rfl, hv⟩
  · rfl
  · have hpos : 0 < v := (zpow_pos (by norm_num) _).trans_le hv
    exact decide_eq_false (not_le.2 hpos)

/-- A sum with a weight weighs. -/
theorem Number.Weighs.add {n : Number} (h : n.Weighs) {weight : Rat} (hweight : 0 ≤ weight) :
    (Number.add Binary64.round n (.finite weight)).Weighs := by
  rcases h with rfl | ⟨v, rfl, hv⟩
  · exact .inl rfl
  · have hsum : (2 : Rat) ^ (-1074 : Int) ≤ v + weight := by linarith
    have hnonneg : 0 ≤ v + weight := (zpow_pos (by norm_num) _).le.trans hsum
    rcases Binary64.round_nonneg hnonneg with hinf | ⟨total, -, htotal⟩
    · exact .inl hinf
    · exact .inr ⟨total, htotal, Binary64.finest_le_of_round hsum htotal⟩

/-- Weights that a variant can have: numbers of the grid, none of them negative. -/
def OnGrid (weight : Rat) : Prop := 0 ≤ weight ∧ Binary64.round weight = .finite weight

/-- Adding up weights of which one is above zero comes to a sum above zero, though every
addition is rounded. -/
theorem weighs_foldl {weights : List Rat} (hweights : ∀ weight ∈ weights, OnGrid weight)
    {start : Number} (hstart : start.Weighs ∨ start = 0 ∧ ∃ weight ∈ weights, 0 < weight) :
    ((weights.map .finite).foldl (Number.add Binary64.round) start).Weighs := by
  induction weights generalizing start with
  | nil =>
    rcases hstart with hstart | ⟨-, weight, hmem, -⟩
    · exact hstart
    · cases hmem
  | cons weight weights ih =>
    obtain ⟨hnonneg, hgrid⟩ := hweights weight List.mem_cons_self
    -- the sum so far weighs something, or nothing was added yet and the weight is still to come
    refine ih (fun other hmem => hweights other (List.mem_cons_of_mem _ hmem)) ?_
    rcases hstart with hstart | ⟨rfl, other, hmem, hpos⟩
    · exact .inl (hstart.add hnonneg)
    · -- nothing was added yet: the sum is this weight, which is zero or large enough
      have hsum : Number.add Binary64.round 0 (.finite weight) = .finite weight :=
        (congrArg Binary64.round (zero_add weight)).trans hgrid
      rw [hsum]
      rcases hnonneg.eq_or_lt with rfl | hlt
      · rcases List.mem_cons.1 hmem with rfl | hmem
        · exact absurd hpos (lt_irrefl _)
        · exact .inr ⟨rfl, other, hmem, hpos⟩
      · exact .inl (.inr ⟨weight, rfl, Binary64.finest_le hlt hgrid⟩)

/-- An index is drawn whenever there is something to draw. -/
theorem weightedIndex_lt (hweights : ∀ weight ∈ weights, OnGrid weight)
    (hpositive : ∃ weight ∈ weights, 0 < weight) (source : Source) (drawn : Nat) :
    ∃ index < weights.length,
      weightedIndex Binary64.round source drawn (weights.map .finite) =
        (some index, drawn + 1) := by
  have htotal := weighs_foldl hweights (.inr ⟨rfl, hpositive⟩)
  have hlength : (weights.map Number.finite).length = weights.length := List.length_map _
  unfold weightedIndex
  dsimp only
  rw [htotal.le_eq_false, if_neg Bool.false_ne_true, ← hlength]
  split
  · next index hindex => exact ⟨index, indexAt_lt hindex, rfl⟩
  · -- what is left behind the last index goes to the last weight
    obtain ⟨weight, hmem, hpos⟩ := hpositive
    have hsome :=
      lastPositive_isSome ⟨.finite weight, List.mem_map_of_mem hmem, decide_eq_true hpos⟩
    obtain ⟨index, hindex⟩ := Option.isSome_iff_exists.1 hsome
    exact ⟨index, lastPositive_lt hindex, by rw [hindex]⟩

end Weighted

/-! ## 4. Exact draws -/

section Exact

variable {weights : List Rat}

/-- Adding up without rounding. -/
theorem foldl_exact (start : Rat) :
    (weights.map .finite).foldl (Number.add .exact) (.finite start) =
      .finite (start + weights.sum) := by
  induction weights generalizing start with
  | nil => rw [List.sum_nil, add_zero]; rfl
  | cons weight weights ih =>
    rw [List.map_cons, List.foldl_cons, List.sum_cons, ← add_assoc]
    exact ih (start + weight)

/-- A point is in the first piece, or in one of the others by what is left of it. -/
theorem indexAt_exact_cons (point weight : Rat) (weights : List Number) :
    indexAt .exact (.finite point) (.finite weight :: weights) =
      if point < weight then some 0
      else (indexAt .exact (.finite (point - weight)) weights).map (· + 1) := by
  have hsub : Number.sub .exact (.finite point) (.finite weight) = .finite (point - weight) :=
    congrArg Number.finite (sub_eq_add_neg point weight).symm
  have hless : Number.lt (.finite (point - weight)) 0 = decide (point < weight) :=
    decide_eq_decide.2 sub_neg
  simp only [indexAt, hsub, hless, decide_eq_true_eq]

/-- A point below the sum of the weights falls on a weight above zero. -/
theorem exists_indexAt_exact (hnonneg : ∀ weight ∈ weights, 0 ≤ weight) {point : Rat}
    (hpoint : 0 ≤ point) (hsum : point < weights.sum) :
    ∃ index weight, weights[index]? = some weight ∧ 0 < weight ∧
      indexAt .exact (.finite point) (weights.map .finite) = some index := by
  induction weights generalizing point with
  | nil => exact absurd hsum (not_lt.2 hpoint)
  | cons weight weights ih =>
    rw [List.map_cons, indexAt_exact_cons]
    by_cases hless : point < weight
    · exact ⟨0, weight, rfl, hpoint.trans_lt hless, if_pos hless⟩
    · rw [List.sum_cons] at hsum
      have hrest : 0 ≤ point - weight := sub_nonneg.2 (not_lt.1 hless)
      obtain ⟨index, found, hfound, hpos, hindex⟩ :=
        ih (fun other hmem => hnonneg other (List.mem_cons_of_mem _ hmem)) hrest (by linarith)
      exact ⟨index + 1, found, hfound, hpos, by rw [if_neg hless, hindex]; rfl⟩

/-- The sum of the weights before one that is above zero is a point that falls on it. -/
theorem indexAt_exact_append {before : List Rat} (hnonneg : ∀ other ∈ before, 0 ≤ other)
    {weight : Rat} (hpos : 0 < weight) (after : List Rat) :
    indexAt .exact (.finite before.sum) ((before ++ weight :: after).map .finite) =
      some before.length := by
  -- the target is the sum of the weights before, so each of them is passed and then taken off
  induction before with
  | nil =>
    rw [List.nil_append, List.map_cons, indexAt_exact_cons]
    exact if_pos hpos
  | cons first before ih =>
    have hrest : ∀ other ∈ before, 0 ≤ other := fun other hmem =>
      hnonneg other (List.mem_cons_of_mem _ hmem)
    have hpast : ¬(first :: before).sum < first := by
      rw [List.sum_cons]
      linarith [List.sum_nonneg hrest]
    rw [List.cons_append, List.map_cons, indexAt_exact_cons, if_neg hpast, List.sum_cons,
      add_sub_cancel_left, ih hrest]
    rfl

/-- Drawing an index where a weight is above zero: the sum of all weights is, too. -/
theorem weightedIndex_exact (hnonneg : ∀ weight ∈ weights, 0 ≤ weight)
    (hpositive : ∃ weight ∈ weights, 0 < weight) {source : Source} {drawn : Nat} {draw : Rat}
    (hdraw : source drawn = .finite draw) :
    0 < weights.sum ∧ weightedIndex .exact source drawn (weights.map .finite) =
      match indexAt .exact (.finite (draw * weights.sum)) (weights.map .finite) with
      | some index => (some index, drawn + 1)
      | none => (lastPositive (weights.map .finite), drawn + 1) := by
  obtain ⟨weight, hmem, hpos⟩ := hpositive
  have hsum : 0 < weights.sum := hpos.trans_le (List.single_le_sum hnonneg weight hmem)
  have htotal : (weights.map .finite).foldl (Number.add .exact) 0 = .finite weights.sum :=
    (foldl_exact 0).trans (by rw [zero_add])
  have hless : Number.le (.finite weights.sum) 0 = false := decide_eq_false (not_le.2 hsum)
  refine ⟨hsum, ?_⟩
  unfold weightedIndex
  simp only [htotal, hless, hdraw, Bool.false_eq_true, if_false]
  rfl

/-- Only weights above zero are drawn. -/
theorem exists_weightedIndex_exact (hnonneg : ∀ weight ∈ weights, 0 ≤ weight)
    (hpositive : ∃ weight ∈ weights, 0 < weight) {source : Source} (hsource : source.InUnit)
    (drawn : Nat) :
    ∃ index weight, weights[index]? = some weight ∧ 0 < weight ∧
      weightedIndex .exact source drawn (weights.map .finite) = (some index, drawn + 1) := by
  obtain ⟨draw, hdraw, hzero, hone⟩ := hsource drawn
  obtain ⟨hsum, hdrawn⟩ := weightedIndex_exact hnonneg hpositive hdraw
  obtain ⟨index, weight, hweight, hpos, hindex⟩ := exists_indexAt_exact hnonneg
    (mul_nonneg hzero hsum.le) (mul_lt_of_lt_one_left hsum hone)
  exact ⟨index, weight, hweight, hpos, by rw [hdrawn, hindex]⟩

/-- Every weight above zero can be drawn. -/
theorem exists_draw_of_pos (hnonneg : ∀ weight ∈ weights, 0 ≤ weight) {index : Nat} {weight : Rat}
    (hweight : weights[index]? = some weight) (hpos : 0 < weight) :
    ∃ draw : Rat, 0 ≤ draw ∧ draw < 1 ∧ ∀ (source : Source) (drawn : Nat),
      source drawn = .finite draw →
      weightedIndex .exact source drawn (weights.map .finite) = (some index, drawn + 1) := by
  obtain ⟨hlt, rfl⟩ := List.getElem?_eq_some_iff.1 hweight
  have hsplit : weights.take index ++ weights[index] :: weights.drop (index + 1) = weights := by
    rw [List.getElem_cons_drop, List.take_append_drop]
  have hbefore : ∀ other ∈ weights.take index, 0 ≤ other := fun other hmem =>
    hnonneg other (List.mem_of_mem_take hmem)
  have hpositive : ∃ weight ∈ weights, 0 < weight := ⟨_, List.getElem_mem hlt, hpos⟩
  -- the draw is where the piece of this weight begins; it is below one as the piece is not empty
  have hsum : 0 < weights.sum :=
    hpos.trans_le (List.single_le_sum hnonneg _ (List.getElem_mem hlt))
  have hless : (weights.take index).sum < weights.sum := by
    have hafter : 0 ≤ (weights.drop (index + 1)).sum :=
      List.sum_nonneg fun other hmem => hnonneg other (List.mem_of_mem_drop hmem)
    conv_rhs => rw [← hsplit]
    rw [List.sum_append, List.sum_cons]
    linarith
  refine ⟨(weights.take index).sum / weights.sum, div_nonneg (List.sum_nonneg hbefore) hsum.le,
    (div_lt_one hsum).2 hless, fun source drawn hdraw => ?_⟩
  obtain ⟨-, hdrawn⟩ := weightedIndex_exact hnonneg hpositive hdraw
  have hindex := indexAt_exact_append hbefore hpos (weights.drop (index + 1))
  rw [hsplit, List.length_take_of_le hlt.le] at hindex
  rw [hdrawn, div_mul_cancel₀ _ hsum.ne', hindex]

/-- A draw falls on one of several places. -/
theorem exists_floor_exact {draw : Rat} (hzero : 0 ≤ draw) (hone : draw < 1) {size : Nat}
    (hsize : 0 < size) :
    ∃ place < size, (Number.mul .exact (.finite draw) (.ofNat size)).floor = .ofNat place := by
  have hsize' : (0 : Rat) < size := by exact_mod_cast hsize
  have hpoint : 0 ≤ (draw * size).floor :=
    Rat.le_floor_iff.2 (by simpa using mul_nonneg hzero hsize'.le)
  obtain ⟨place, hplace⟩ := Int.eq_ofNat_of_zero_le hpoint
  refine ⟨place, ?_, ?_⟩
  · have hle : ((place : Int) : Rat) ≤ draw * size := hplace ▸ Rat.floor_le _
    have hlt : (place : Rat) < size := by
      have := mul_lt_of_lt_one_left hsize' hone
      push_cast at hle
      linarith
    exact_mod_cast hlt
  · show Number.finite ((draw * size).floor : Rat) = .ofNat place
    rw [hplace]
    rfl

/-- Every place has a draw that falls on it. -/
theorem floor_exact_of_div {place size : Nat} (hplace : place < size) :
    (Number.mul .exact (.finite (place / size)) (.ofNat size)).floor = .ofNat place := by
  have hsize : (size : Rat) ≠ 0 := by exact_mod_cast (Nat.zero_lt_of_lt hplace).ne'
  show Number.finite ((place / size * size : Rat).floor : Rat) = .ofNat place
  rw [div_mul_cancel₀ _ hsize, ← Int.cast_natCast, Rat.floor_intCast]
  rfl

/-- A draw picks one of several candidates. -/
theorem exists_place {draw : Rat} (hzero : 0 ≤ draw) (hone : draw < 1) {size : Nat}
    (hsize : 0 < size) :
    ∃ place < size, (Number.mul .exact (.finite draw) (.ofNat size)).floor.toNat? = some place := by
  obtain ⟨place, hplace, hfloor⟩ := exists_floor_exact hzero hone hsize
  exact ⟨place, hplace, by rw [hfloor, Number.toNat?_ofNat]⟩

/-- Every candidate can be picked. -/
theorem place_of_div {place size : Nat} (hplace : place < size) :
    (Number.mul .exact (.finite (place / size)) (.ofNat size)).floor.toNat? = some place := by
  rw [floor_exact_of_div hplace, Number.toNat?_ofNat]

end Exact

end PromptTemplate
