/-
`Proportions.lean` -- options are drawn in proportion to their weights.

With exact numbers the sums of the weights cut the line up to their total into one piece for each
option, as long as its weight, and a draw falls on the option whose piece it is in
(`indexAt_exact_iff`). So no draw gets behind the last piece, and an option without a weight has a
piece of no length. A variant that is drawn renders as many options as its first draw says, one draw
for each (`renderDrawn_picked`), and every number between its bounds has draws that say it.
-/
import PromptTemplate.Proofs.Expansion.Support

set_option autoImplicit false

namespace PromptTemplate

/-! ## 1. Pieces -/

section Pieces

variable {weights : List Rat} (hnonneg : ∀ weight ∈ weights, 0 ≤ weight)
include hnonneg

theorem sum_take_nonneg (index : Nat) : 0 ≤ (weights.take index).sum :=
  List.sum_nonneg fun weight hmem => hnonneg weight (List.mem_of_mem_take hmem)

theorem sum_take_le_sum (index : Nat) : (weights.take index).sum ≤ weights.sum := by
  have hrest : 0 ≤ (weights.drop index).sum :=
    List.sum_nonneg fun weight hmem => hnonneg weight (List.mem_of_mem_drop hmem)
  calc (weights.take index).sum ≤ (weights.take index).sum + (weights.drop index).sum :=
    le_add_of_nonneg_right hrest
    _ = weights.sum := List.sum_take_add_sum_drop weights index

/-- A point is given to the option whose piece it is in. The induction takes the first weight off
the point as well as off every sum. -/
theorem indexAt_exact_iff {point : Rat} (hpoint : 0 ≤ point) (index : Nat) :
    indexAt .exact (.finite point) (weights.map .finite) = some index ↔
      (weights.take index).sum ≤ point ∧ point < (weights.take (index + 1)).sum := by
  induction weights generalizing point index with
  | nil => simp [indexAt]
  | cons weight weights ih =>
    have hweight := hnonneg weight List.mem_cons_self
    have hrest : ∀ other ∈ weights, 0 ≤ other :=
      fun other hmem => hnonneg other (List.mem_cons_of_mem _ hmem)
    rw [List.map_cons, indexAt_exact_cons]
    -- the point is in the first piece, or in the same piece of the rest
    -- once the first is taken off
    by_cases hless : point < weight
    · rw [if_pos hless]
      cases index with
      | zero => simpa using ⟨hpoint, hless⟩
      | succ index =>
        have hbefore := sum_take_nonneg hrest index
        have hpast : ¬(List.take (index + 1) (weight :: weights)).sum ≤ point := by
          rw [List.take_succ_cons, List.sum_cons]
          linarith
        exact iff_of_false (by simp) fun h => hpast h.1
    · rw [if_neg hless]
      cases index with
      | zero => simp [hless]
      | succ index =>
        have hpoint' : 0 ≤ point - weight := sub_nonneg.2 (not_lt.1 hless)
        simp only [Option.map_eq_some_iff, Nat.add_right_cancel_iff, exists_eq_right,
          ih hrest hpoint', List.take_succ_cons, List.sum_cons]
        constructor <;> rintro ⟨hle, hlt⟩ <;> constructor <;> linarith

variable (htotal : 0 < weights.sum)
include htotal

/-- A draw falls into one piece, of an option with a weight above zero, and neither the fallback nor
the absent index is come to. -/
theorem weightedIndex_exact_unique {source : Source} {drawn : Nat} {draw : Rat}
    (hdraw : source drawn = .finite draw) (hzero : 0 ≤ draw) (hone : draw < 1) :
    ∃ index weight, weights[index]? = some weight ∧ 0 < weight ∧
      indexAt .exact (.finite (draw * weights.sum)) (weights.map .finite) = some index ∧
      weightedIndex .exact source drawn (weights.map .finite) = (some index, drawn + 1) ∧
      ∀ other, (weights.take other).sum ≤ draw * weights.sum ∧
        draw * weights.sum < (weights.take (other + 1)).sum ↔
        other = index := by
  have hpoint : 0 ≤ draw * weights.sum := mul_nonneg hzero htotal.le
  obtain ⟨index, weight, hweight, hpos, hindex⟩ :=
    exists_indexAt_exact hnonneg hpoint (mul_lt_of_lt_one_left htotal hone)
  obtain ⟨-, hdrawn⟩ :=
    weightedIndex_exact hnonneg ⟨weight, List.mem_of_getElem? hweight, hpos⟩ hdraw
  refine ⟨index, weight, hweight, hpos, hindex, by rw [hdrawn, hindex], fun other => ?_⟩
  rw [← indexAt_exact_iff hnonneg hpoint, hindex, Option.some_inj]
  exact eq_comm

/-- The draws that fall on an option are an interval as long as its part of the total. -/
theorem exists_interval {index : Nat} (hindex : index < weights.length) :
    ∃ low high : Rat, 0 ≤ low ∧ high ≤ 1 ∧ high - low = weights[index] / weights.sum ∧
      ∀ (source : Source) (drawn : Nat) (draw : Rat), source drawn = .finite draw →
        0 ≤ draw → draw < 1 →
        ((weightedIndex .exact source drawn (weights.map .finite)).1 = some index ↔ low ≤ draw ∧
          draw < high) := by
  refine ⟨(weights.take index).sum / weights.sum, (weights.take (index + 1)).sum / weights.sum,
    div_nonneg (sum_take_nonneg hnonneg index) htotal.le,
      (div_le_one htotal).2 (sum_take_le_sum hnonneg _), ?_,
    fun source drawn draw hdraw hzero hone => ?_⟩
  · rw [← sub_div, List.sum_take_succ weights index hindex, add_sub_cancel_left]
  · obtain ⟨found, -, -, -, -, hfound, hunique⟩ :=
      weightedIndex_exact_unique hnonneg htotal hdraw hzero hone
    rw [hfound, Option.some_inj, div_le_iff₀ htotal, lt_div_iff₀ htotal, hunique]
    exact eq_comm

end Pieces

/-! ## 2. Variants -/

/-- A draw is taken. -/
def Walk.pass : Walk Unit := fun w => (.ok (), w.drew)

/-- Options that were picked, each rendered behind a draw of its own. -/
def renderPicked (render : Renderer) (ambient : Text) : List (Weighted Command) → Walk (List Text)
  | [] => return []
  | option :: options => do
    Walk.pass
    let first ← render option.value .random ambient
    let rest ← renderPicked render ambient options
    return first :: rest

/-- So many of the options, each with a weight above zero, and any of them more than once. -/
structure PickedFrom (options : List (Weighted Command)) (count : Nat)
    (picked : List (Weighted Command)) : Prop where
  length : picked.length = count
  positive : ∀ option ∈ picked, option ∈ options ∧ 0 < option.weight

/-- A walk of a variant renders so many picked options and joins them. -/
def RendersPicked (render : Renderer) (options : List (Weighted Command)) (separator ambient : Text)
    (count : Nat) (w : Walking) (outcome : Except WalkError Text × Walking) : Prop :=
  ∃ picked, PickedFrom options count picked ∧
    outcome = (renderPicked render ambient picked >>= fun parts =>
      pure (Text.join separator parts)) w

/-- How many draws it takes to choose a number between two bounds. -/
def countingDraws (least most : Nat) : Nat := if least < most then 1 else 0

/-- The state after a number between two bounds was drawn. -/
def Walking.counted (w : Walking) (least most : Nat) : Walking :=
  { w with session := { w.session with drawn := w.session.drawn + countingDraws least most } }

/-! ### How many -/

section Count

variable {source : Source} {drawn least most count : Nat}

theorem Number.width_exact (hbounds : least ≤ most) :
    Number.add .exact (Number.sub .exact (.ofNat most) (.ofNat least)) 1 =
      .ofNat (most - least + 1) := by
  show Number.finite ((most : Rat) + -least + 1) = .finite ((most - least + 1 : Nat) : Rat)
  push_cast [hbounds]
  rw [sub_eq_add_neg]

theorem Number.add_exact_ofNat (first second : Nat) :
    Number.add .exact (.ofNat first) (.ofNat second) = .ofNat (first + second) := by
  show Number.finite ((first : Rat) + second) = .finite ((first + second : Nat) : Rat)
  rw [Nat.cast_add]

theorem Number.le_ofNat (first second : Nat) :
    (Number.ofNat first).le (.ofNat second) = decide (first ≤ second) :=
  decide_eq_decide.2 Nat.cast_le

theorem Number.loopCount_ofNat (count : Nat) : (Number.ofNat count).loopCount = count := by
  show (count : Rat).ceil.toNat = count
  rw [← Int.cast_natCast, Rat.ceil_intCast, Int.toNat_natCast]

/-- Where the bounds differ, a draw says how far above the lower one the number is. -/
theorem randomInt_exact (hless : least < most) {place : Nat}
    (hplace : (Number.mul .exact (source drawn) (.ofNat (most - least + 1))).floor = .ofNat place) :
    randomInt .exact source drawn (.ofNat least) (.ofNat most) =
      (.ofNat (least + place), drawn + 1) := by
  rw [randomInt, Number.le_ofNat, decide_eq_false (not_le.2 hless), if_neg Bool.false_ne_true]
  simp only [Number.width_exact hless.le, hplace, Number.add_exact_ofNat]

theorem randomInt_self (round : Rounding) (source : Source) (drawn bound : Nat) :
    randomInt round source drawn (.ofNat bound) (.ofNat bound) = (.ofNat bound, drawn) := by
  rw [randomInt, Number.le_ofNat, decide_eq_true (le_refl bound), if_pos rfl]

/-- What is drawn lies between the bounds. -/
theorem exists_randomInt_exact (hsource : source.InUnit) (hbounds : least ≤ most) :
    ∃ count, least ≤ count ∧ count ≤ most ∧
      randomInt .exact source drawn (.ofNat least) (.ofNat most) =
        (.ofNat count, drawn + countingDraws least most) := by
  rcases hbounds.eq_or_lt with rfl | hless
  · refine ⟨least, le_refl _, le_refl _, ?_⟩
    rw [randomInt_self, countingDraws, if_neg (lt_irrefl _)]
    rfl
  · obtain ⟨draw, hdraw, hzero, hone⟩ := hsource drawn
    obtain ⟨place, hplace, hfloor⟩ := exists_floor_exact hzero hone (Nat.succ_pos (most - least))
    refine ⟨least + place, Nat.le_add_right _ _, by omega, ?_⟩
    rw [randomInt_exact hless (hdraw ▸ hfloor), countingDraws, if_pos hless]

/-- Every number between the bounds can be drawn. -/
theorem exists_draw_randomInt (hleast : least ≤ count) (hmost : count ≤ most) :
    ∃ draw : Rat, 0 ≤ draw ∧ draw < 1 ∧ ∀ (source : Source) (drawn : Nat), source drawn =
      .finite draw →
      randomInt .exact source drawn (.ofNat least) (.ofNat most) =
        (.ofNat count, drawn + countingDraws least most) := by
  have hplace : count - least < most - least + 1 := by omega
  have hsize : (0 : Rat) < (most - least + 1 : Nat) := by exact_mod_cast Nat.succ_pos _
  refine ⟨(count - least : Nat) / (most - least + 1 : Nat), div_nonneg (Nat.cast_nonneg _) hsize.le,
    (div_lt_one hsize).2 (by exact_mod_cast hplace), fun source drawn hdraw => ?_⟩
  rcases (hleast.trans hmost).eq_or_lt with rfl | hless
  · obtain rfl := le_antisymm hleast hmost
    rw [randomInt_self, countingDraws, if_neg (lt_irrefl _)]
    rfl
  · rw [randomInt_exact hless (hdraw ▸ floor_exact_of_div hplace), Nat.add_sub_cancel' hleast,
      countingDraws, if_pos hless]

end Count

/-! ### Which -/

theorem PickedFrom.cons {options picked : List (Weighted Command)} {count : Nat}
    {option : Weighted Command} (h : PickedFrom options count picked) (hmem : option ∈ options)
    (hpos : 0 < option.weight) :
    PickedFrom options (count + 1) (option :: picked) where
  length := congrArg (· + 1) h.length
  positive := List.forall_mem_cons.2 ⟨⟨hmem, hpos⟩, h.positive⟩

section Picked

variable {env : Environment} (hround : env.round = .exact) (hsource : env.source.InUnit)
  {options : List (Weighted Command)} (hnonneg : ∀ option ∈ options, 0 ≤ option.weight)
  (hpositive : ∃ option ∈ options, 0 < option.weight)
include hround hsource hnonneg hpositive

/-- A loop of draws renders options that were picked, as often as it runs. The induction is on how
often; behind an option that fails nothing is rendered, so it does not matter what is picked there.
-/
theorem renderDrawn_picked (render : Renderer) (ambient : Text) (count : Nat) (w : Walking) :
    ∃ picked, PickedFrom options count picked ∧
      renderDrawn env render options ambient count w = renderPicked render ambient picked w := by
  induction count generalizing w with
  | zero => exact ⟨[], ⟨rfl, List.forall_mem_nil _⟩, rfl⟩
  -- the first option is drawn on its own; the walk behind it starts where its rendering ended
  | succ count ih =>
    obtain ⟨index, option, hoption, hpos, hdrawn⟩ :=
      exists_drawOption hround hsource hnonneg hpositive w
    change (Walk.drawWeighted env (options.map (·.weight)) >>= Walk.pick options) w = _ at hdrawn
    rw [renderDrawn, ← Walk.bind_assoc, Walk.bind_ok hdrawn, Walk.bind_apply]
    rcases hfirst : render option.value .random ambient w.drew with ⟨first, after⟩
    obtain ⟨picked, hpicked, hrest⟩ := ih after
    refine ⟨option :: picked, hpicked.cons (List.mem_of_getElem? hoption) hpos, ?_⟩
    have hpass : Walk.pass w = (.ok (), w.drew) := rfl
    rw [renderPicked, Walk.bind_ok hpass, Walk.bind_apply, hfirst]
    cases first with
    | error error => rfl
    | ok text =>
      dsimp only
      rw [Walk.bind_apply, Walk.bind_apply, hrest]

/-- A walk of a variant renders as many options as were counted. -/
theorem rendersPicked_of_counted {render : Renderer} {least most count : Nat} {w : Walking}
    (hcount : randomInt .exact env.source w.session.drawn (.ofNat least) (.ofNat most) =
      (.ofNat count, w.session.drawn + countingDraws least most))
    (label : Label) (separator ambient : Text) :
    RendersPicked render options separator ambient count (w.counted least most)
      (renderVariant env render label options least most separator .random ambient w) := by
  have heligible : eligible (options.map (·.weight)) ≠ [] := by
    obtain ⟨option, hmem, hpos⟩ := hpositive
    exact eligible_ne_nil_of_exists_pos ⟨option.weight, List.mem_map_of_mem hmem, hpos⟩
  have hcounted : Walk.drawInt env least most w = (.ok (.ofNat count), w.counted least most) := by
    rw [Walk.drawInt, hround, hcount]
    rfl
  obtain ⟨picked, hpicked, hdrawn⟩ :=
    renderDrawn_picked hround hsource hnonneg hpositive render ambient count (w.counted least most)
  refine ⟨picked, hpicked, ?_⟩
  simp only [renderVariant, if_true, List.isEmpty_eq_false_iff.2 heligible,
    Bool.false_eq_true, if_false]
  rw [Walk.bind_ok hcounted, Number.loopCount_ofNat, Walk.bind_apply, hdrawn, ← Walk.bind_apply]

end Picked

/-! ## 3. What is drawn -/

/-- **Options are drawn in proportion to their weights.** Take weights that are not negative, and
not all zero. Every draw takes one step of the source and falls into one piece of the total, of an
option with a weight above zero, and is given that option. The draws that fall on an option are an
interval, as long as its part of the total. A variant that is drawn renders as many picked options
as a number between its bounds says, and each of these numbers has a draw that says it, whatever is
drawn behind that. -/
theorem drawn_proportionally :
    (∀ weights : List Rat, (∀ weight ∈ weights, 0 ≤ weight) → 0 < weights.sum →
      (∀ (source : Source) (drawn : Nat) (draw : Rat), source drawn = .finite draw →
        0 ≤ draw → draw < 1 →
        ∃ index weight, weights[index]? = some weight ∧ 0 < weight ∧
          indexAt .exact (.finite (draw * weights.sum)) (weights.map .finite) = some index ∧
          weightedIndex .exact source drawn (weights.map .finite) = (some index, drawn + 1) ∧
          ∀ other, (weights.take other).sum ≤ draw * weights.sum ∧
            draw * weights.sum < (weights.take (other + 1)).sum ↔ other = index) ∧
      ∀ index (hindex : index < weights.length), ∃ low high : Rat,
        0 ≤ low ∧ high ≤ 1 ∧ high - low = weights[index] / weights.sum ∧
        ∀ (source : Source) (drawn : Nat) (draw : Rat), source drawn = .finite draw →
          0 ≤ draw → draw < 1 →
          ((weightedIndex .exact source drawn (weights.map .finite)).1 = some index ↔
            low ≤ draw ∧ draw < high)) ∧
    ∀ (env : Environment) (options : List (Weighted Command)) (least most : Nat) (label : Label)
      (separator : Text) (sampling : Option Sampling) (method : Sampling), env.round = .exact →
      (∀ option ∈ options, 0 ≤ option.weight) → (∃ option ∈ options, 0 < option.weight) →
      least ≤ most →
      sampling.getD method = .random → ∀ (depth : Nat) (ambient : Text) (w : Walking),
        let node := Command.variant label options least most separator sampling
        let renders (env : Environment) (count : Nat) :=
          RendersPicked (renderWithin env depth) options separator ambient count
            (w.counted least most)
            (renderWithin env (depth + 1) node method ambient w)
        (env.source.InUnit → ∃ count, least ≤ count ∧ count ≤ most ∧ renders env count) ∧
        ∀ count, least ≤ count → count ≤ most → ∃ draw : Rat, 0 ≤ draw ∧ draw < 1 ∧
          ∀ source : Source, source.InUnit → source w.session.drawn = .finite draw →
            renders (env.drawing source) count := by
  refine ⟨fun weights hnonneg htotal => ⟨fun source drawn draw hdraw hzero hone => ?_,
    fun index hindex => ?_⟩,
    fun env options least most label separator sampling method hround hnonneg hpositive hbounds
      hrandom depth ambient w => ?_⟩
  · exact weightedIndex_exact_unique hnonneg htotal hdraw hzero hone
  · exact exists_interval hnonneg htotal hindex
  -- the method of the node decides, whichever it was reached with
  · have hnode (env : Environment) :
        renderWithin env (depth + 1) (.variant label options least most separator sampling)
          method ambient w =
          renderVariant env (renderWithin env depth) label options least most separator .random
            ambient w := by
      show renderVariant _ _ _ _ _ _ _ (sampling.getD method).walked _ _ = _
      rw [hrandom]
      rfl
    simp only [hnode]
    refine ⟨fun hsource => ?_, fun count hleast hmost => ?_⟩
    · obtain ⟨count, hleast, hmost, hcount⟩ := exists_randomInt_exact hsource hbounds
      refine ⟨count, hleast, hmost, ?_⟩
      exact rendersPicked_of_counted hround hsource hnonneg hpositive hcount label separator ambient
    · obtain ⟨draw, hzero, hone, hcount⟩ := exists_draw_randomInt hleast hmost
      refine ⟨draw, hzero, hone, fun source hsource hdraw => ?_⟩
      have hround' : (env.drawing source).round = .exact := hround
      exact rendersPicked_of_counted hround' hsource hnonneg hpositive (hcount source _ hdraw) label
        separator ambient

/-- Weights of zero in front, between and behind the others. -/
def zeroWeights : List Rat := [0, 1, 0, 3, 0]

/-- A variant with those weights that picks one to three options. -/
def zeroWeighted : List (Weighted Command) :=
  zeroWeights.map fun weight => ⟨weight, .literal (units "a")⟩

/-- A quarter is where the piece of the second option ends and that of the fourth begins; the option
between them has no piece. -/
theorem drawn_proportionally_of_zeros :
    let quarter : Source := fun _ => .finite (1 / 4)
    let w : Walking := ⟨.root [], .fresh 0⟩
    let node := Command.variant ⟨[0], .built 0⟩ zeroWeighted 1 3 (units ",") none
    let renders (env : Environment) (count : Nat) :=
      RendersPicked (renderWithin env 1) zeroWeighted (units ",") [] count (w.counted 1 3)
        (renderWithin env 2 node .random [] w)
    ((∀ weight ∈ zeroWeights, 0 ≤ weight) ∧ 0 < zeroWeights.sum) ∧
      weightedIndex .exact quarter 0 (zeroWeights.map .finite) = (some 3, 1) ∧
      (∃ low high : Rat, 0 ≤ low ∧ high ≤ 1 ∧ high - low = 1 / 4 ∧ ¬(low ≤ 1 / 4 ∧ 1 / 4 < high)) ∧
      (drawnEnvironment.source.InUnit ∧ ∃ count, 1 ≤ count ∧ count ≤ 3 ∧
        renders drawnEnvironment count) ∧
      ∃ draw : Rat, 0 ≤ draw ∧ draw < 1 ∧ ∀ source : Source, source.InUnit →
        source 0 = .finite draw →
        renders (drawnEnvironment.drawing source) 2 := by
  intro quarter w node renders
  obtain ⟨hindex, hvariant⟩ := drawn_proportionally
  have hnonneg : ∀ weight ∈ zeroWeights, 0 ≤ weight := by decide
  have hsum : zeroWeights.sum = 4 := by decide +kernel
  have htotal : 0 < zeroWeights.sum := by rw [hsum]; norm_num
  -- the second option weighs nothing: its piece is empty, and the point falls on the third at once
  obtain ⟨hdraws, hintervals⟩ := hindex zeroWeights hnonneg htotal
  obtain ⟨index, weight, -, -, -, hdrawn, hunique⟩ :=
    hdraws quarter 0 (1 / 4) rfl (by norm_num) (by norm_num)
  obtain rfl : 3 = index := (hunique 3).1 (by rw [hsum]; decide +kernel)
  obtain ⟨low, high, hlow, hhigh, hlength, hselects⟩ := hintervals 1 (by decide)
  have hweights : ∀ option ∈ zeroWeighted, 0 ≤ option.weight := List.forall_mem_map.2 hnonneg
  have hpositive : ∃ option ∈ zeroWeighted, 0 < option.weight :=
    ⟨⟨1, .literal (units "a")⟩, by simp [zeroWeighted, zeroWeights], one_pos⟩
  obtain ⟨hcounts, hreaches⟩ :=
    hvariant drawnEnvironment zeroWeighted 1 3 ⟨[0], .built 0⟩ (units ",") none .random rfl
    hweights hpositive (by decide) rfl 1 [] w
  have hsource : drawnEnvironment.source.InUnit := fun _ => ⟨0, rfl, le_refl 0, one_pos⟩
  refine ⟨⟨hnonneg, htotal⟩, hdrawn, ⟨low, high, hlow, hhigh, ?_, fun hbetween => ?_⟩,
    ⟨hsource, hcounts hsource⟩, hreaches 2 (by decide) (by decide)⟩
  · rw [hlength, hsum]
    rfl
  · have hsecond := (hselects quarter 0 (1 / 4) rfl (by norm_num) (by norm_num)).2 hbetween
    rw [hdrawn] at hsecond
    exact absurd hsecond (by decide)

end PromptTemplate
