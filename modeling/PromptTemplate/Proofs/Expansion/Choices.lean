/-
`Choices.lean` -- what the choices of a block are made of.

A choice of a variant is a selection of the options that have a weight, in their order, so
it takes no option twice. A chance always leaves an outcome.
-/
import Mathlib.Data.List.Nodup
import PromptTemplate.Expansion.Walk

set_option autoImplicit false

namespace PromptTemplate

/-- A walk draws where the method is to draw, and rotates by both of the others. -/
@[simp] theorem Sampling.walked_eq_random {method : Sampling} :
    method.walked = .random ↔ method = .random := by
  cases method <;> decide

/-- A selection of members keeps their order. -/
theorem sublist_of_mem_combinations {α : Type} {size : Nat} {members selection : List α}
    (h : selection ∈ combinations size members) : selection.Sublist members := by
  induction members generalizing size selection with
  | nil =>
    cases size with
    | zero => rw [List.mem_singleton.1 h]
    | succ size => cases h
  | cons member members ih =>
    cases size with
    | zero =>
      rw [List.mem_singleton.1 h]
      exact List.nil_sublist _
    | succ size =>
      rcases List.mem_append.1 h with h | h
      · obtain ⟨rest, hrest, rfl⟩ := List.mem_map.1 h
        exact (ih hrest).cons_cons member
      · exact (ih h).cons member

/-- The options that can be chosen are those with a weight. -/
theorem mem_eligibleFrom {first index : Nat} {weights : List Rat} :
    index ∈ eligibleFrom first weights ↔
      first ≤ index ∧ ∃ weight, weights[index - first]? = some weight ∧ 0 < weight := by
  induction weights generalizing first with
  | nil => simp [eligibleFrom]
  | cons weight weights ih =>
    have hlater : index ∈ eligibleFrom (first + 1) weights ↔
        first < index ∧ ∃ weight', (weight :: weights)[index - first]? = some weight' ∧
          0 < weight' := by
      rw [ih]
      refine and_congr_right fun hlt => ?_
      obtain ⟨next, hnext⟩ : ∃ next, index - first = next + 1 := ⟨index - first - 1, by omega⟩
      rw [hnext, List.getElem?_cons_succ, show index - (first + 1) = next by omega]
    rw [eligibleFrom]
    -- an index is before the place looked at, at it, or behind it
    rcases Nat.lt_trichotomy index first with hlt | rfl | hlt
    · split
      · rw [List.mem_cons, hlater]
        omega
      · rw [hlater]
        omega
    · rw [Nat.sub_self, List.getElem?_cons_zero]
      split
      · next hpos => simpa using hpos
      · next hpos =>
        rw [hlater]
        simpa using hpos
    · split
      · rw [List.mem_cons, hlater]
        simp only [hlt, Nat.le_of_lt hlt, true_and, or_iff_right_iff_imp]
        omega
      · rw [hlater]
        simp only [hlt, Nat.le_of_lt hlt, true_and]

/-- Something can be chosen just when a weight is above zero. -/
theorem exists_pos_of_eligible_ne_nil {weights : List Rat} (h : eligible weights ≠ []) :
    ∃ weight ∈ weights, 0 < weight := by
  obtain ⟨index, hmem⟩ := List.exists_mem_of_ne_nil _ h
  obtain ⟨-, weight, hweight, hpos⟩ := mem_eligibleFrom.1 hmem
  exact ⟨weight, List.mem_of_getElem? hweight, hpos⟩

theorem eligible_ne_nil_of_exists_pos {weights : List Rat} (h : ∃ weight ∈ weights, 0 < weight) :
    eligible weights ≠ [] := by
  obtain ⟨weight, hmem, hpos⟩ := h
  obtain ⟨index, hindex⟩ := List.mem_iff_getElem?.1 hmem
  exact List.ne_nil_of_mem (mem_eligibleFrom.2 ⟨Nat.zero_le index, weight, hindex, hpos⟩)

theorem eligibleFrom_sublist (first : Nat) (weights : List Rat) :
    (eligibleFrom first weights).Sublist (List.range' first weights.length) := by
  induction weights generalizing first with
  | nil => exact .slnil
  | cons weight weights ih =>
    rw [eligibleFrom, List.length_cons, List.range'_succ]
    split
    · exact (ih (first + 1)).cons_cons first
    · exact (ih (first + 1)).cons first

/-- A choice takes no option twice. -/
theorem nodup_of_mem_variantChoices {weights : List Rat} {least most : Nat} {choice : List Nat}
    (h : choice ∈ variantChoices weights least most) : choice.Nodup := by
  obtain ⟨size, -, hchoice⟩ := List.mem_flatMap.1 h
  have hall : (List.range' 0 weights.length).Nodup := List.nodup_range'
  exact hall.sublist ((sublist_of_mem_combinations hchoice).trans (eligibleFrom_sublist 0 weights))

/-- The values with these indices. -/
def valuesAt {α : Type} (options : List (Weighted α)) (choice : List Nat) : List α :=
  choice.filterMap fun index => options[index]?.map (·.value)

/-- Choosing all options gives all of them. -/
theorem valuesAt_range {α : Type} (options : List (Weighted α)) :
    valuesAt options (List.range options.length) = options.map (·.value) := by
  induction options with
  | nil => rfl
  | cons option options ih =>
    rw [valuesAt, List.length_cons, List.range_succ_eq_map, List.filterMap_cons, List.filterMap_map,
      List.map_cons, ← ih]
    rfl

/-- The values of a choice are some of all values, in their order. -/
theorem valuesAt_sublist {α : Type} {options : List (Weighted α)} {least most : Nat}
    {choice : List Nat} (h : choice ∈ variantChoices (options.map (·.weight)) least most) :
    (valuesAt options choice).Sublist (options.map (·.value)) := by
  obtain ⟨size, -, hchoice⟩ := List.mem_flatMap.1 h
  have hsub := (sublist_of_mem_combinations hchoice).trans (eligibleFrom_sublist 0 _)
  rw [List.length_map, ← List.range_eq_range'] at hsub
  rw [← valuesAt_range]
  exact hsub.filterMap _

/-- The options of a choice are some of all options, in their order. -/
theorem optionsAt_sublist {options : List (Weighted Command)} {least most : Nat} {choice : List Nat}
    (h : choice ∈ variantChoices (options.map (·.weight)) least most) :
    (optionsAt options choice).Sublist (options.map (·.value)) := valuesAt_sublist h

/-! ### One pick -/

theorem combinations_one {α : Type} (members : List α) :
    combinations 1 members = members.map ([·]) := by
  induction members with
  | nil => rfl
  | cons member members ih => rw [combinations, combinations, ih]; rfl

/-- Without options there is nothing to choose, whatever the bounds. -/
theorem variantChoices_nil (least most : Nat) : variantChoices [] least most = [] := by
  have hnone : min most 0 + 1 - max least 1 = 0 := by omega
  simp only [variantChoices, eligible, eligibleFrom, List.length_nil, hnone, List.range'_zero,
    List.flatMap_nil]

theorem variantChoices_one (weights : List Rat) :
    variantChoices weights 1 1 = (eligible weights).map ([·]) := by
  unfold variantChoices
  cases eligible weights with
  | nil => rfl
  | cons index indices =>
    have hone : min 1 (index :: indices).length + 1 - 1 = 1 := by
      rw [List.length_cons]
      omega
    simp only [Nat.max_self, hone, List.range'_one, List.flatMap_singleton, combinations_one]

/-- The options that can be chosen, in their order. -/
def positiveOptions (options : List (Weighted Command)) : List (Weighted Command) :=
  options.filter fun option => 0 < option.weight

theorem mem_positiveOptions {options : List (Weighted Command)} {option : Weighted Command} :
    option ∈ positiveOptions options ↔
      ∃ index : Nat, options[index]? = some option ∧ 0 < option.weight := by
  rw [positiveOptions, List.mem_filter, List.mem_iff_getElem?, decide_eq_true_eq,
    ← exists_and_right]

private theorem map_optionsAt_eligibleFrom (first : Nat) (options : List (Weighted Command)) :
    ((eligibleFrom first (options.map (·.weight))).map fun index =>
        optionsAt options [index - first]) =
      (positiveOptions options).map fun option => [option.value] := by
  induction options generalizing first with
  | nil => rfl
  | cons option options ih =>
    -- behind the first option every index is larger, and finds what it finds one place before
    have hrest : ((eligibleFrom (first + 1) (options.map (·.weight))).map fun index =>
          optionsAt (option :: options) [index - first]) =
        (positiveOptions options).map fun option => [option.value] := by
      rw [← ih (first + 1)]
      refine List.map_congr_left fun index hmem => ?_
      obtain ⟨hle, -⟩ := mem_eligibleFrom.1 hmem
      obtain ⟨next, rfl⟩ := Nat.exists_eq_add_of_le hle
      rw [Nat.add_sub_cancel_left, Nat.add_assoc, Nat.add_sub_cancel_left, Nat.add_comm 1]
      rfl
    rw [List.map_cons, eligibleFrom, positiveOptions, List.filter_cons]
    by_cases hpos : 0 < option.weight
    · rw [if_pos hpos, if_pos (decide_eq_true hpos), List.map_cons, hrest, Nat.sub_self]
      rfl
    · rw [if_neg hpos, if_neg (by simpa using hpos)]
      exact hrest

/-- With one pick, the choices of a variant are its options with a weight, one each. -/
theorem map_optionsAt_variantChoices_one (options : List (Weighted Command)) :
    (variantChoices (options.map (·.weight)) 1 1).map (optionsAt options) =
      (positiveOptions options).map fun option => [option.value] := by
  rw [variantChoices_one, List.map_map]
  exact map_optionsAt_eligibleFrom 0 options

/-! ### Chances -/

theorem true_mem_probabilityChoices {chance : Rat} :
    true ∈ probabilityChoices (.finite chance) ↔ 0 < chance := by
  have hless : Number.lt 0 (.finite chance) = decide (0 < chance) := rfl
  simp [probabilityChoices, hless]

theorem false_mem_probabilityChoices {chance : Rat} :
    false ∈ probabilityChoices (.finite chance) ↔ chance < 1 := by
  have hless : (Number.finite chance).lt 1 = decide (chance < 1) := rfl
  simp [probabilityChoices, hless]

/-- What is not certain to be put in may be left out. -/
theorem probabilityChoices_ne_nil (chance : Rat) : probabilityChoices (.finite chance) ≠ [] := by
  by_cases hless : chance < 1
  · exact List.ne_nil_of_mem (false_mem_probabilityChoices.2 hless)
  · exact List.ne_nil_of_mem (true_mem_probabilityChoices.2 (by grind))

end PromptTemplate
