/-
`Selections.lean` -- the choices of a variant are all that its bounds allow.

The choices are the selections of the options with a weight whose size lies within the bounds:
each of them stands in the list, once, the smaller ones first and those of one size in the order
of their indices. The list is put together size by size, so what holds of the selections of one
size (`mem_combinations`, `length_combinations`, `pairwise_combinations`) holds of the whole.
Main statement: `variantChoices_selections`.
-/
import Mathlib.Algebra.BigOperators.Intervals
import Mathlib.Data.List.Sort
import Mathlib.Data.Nat.Choose.Basic
import PromptTemplate.Proofs.Expansion.Choices

set_option autoImplicit false

namespace PromptTemplate

/-! ## 1. Selections of one size -/

section Combinations

variable {α : Type}

/-- The selections of a size are the sublists of that length. -/
theorem mem_combinations {size : Nat} {members selection : List α} :
    selection ∈ combinations size members ↔ selection.Sublist members ∧
      selection.length = size := by
  constructor
  · refine fun h => ⟨sublist_of_mem_combinations h, ?_⟩
    fun_induction combinations size members generalizing selection with
    | case1 => rw [List.mem_singleton.1 h, List.length_nil]
    | case2 => cases h
    | case3 size member members ih ih' =>
      rcases List.mem_append.1 h with h | h
      · obtain ⟨rest, hrest, rfl⟩ := List.mem_map.1 h
        rw [List.length_cons, ih hrest]
      · exact ih' h
  · rintro ⟨hsub, rfl⟩
    induction hsub with
    | slnil => exact List.mem_singleton_self _
    | @cons selection members member hsub ih =>
      -- without the first member: at size zero the empty selection is the only one
      cases selection with
      | nil => exact List.mem_singleton_self _
      | cons first rest => exact List.mem_append_right _ ih
    | cons_cons member hsub ih => exact List.mem_append_left _ (List.mem_map_of_mem ih)

theorem length_combinations (size : Nat) (members : List α) :
    (combinations size members).length = members.length.choose size := by
  fun_induction combinations size members with
  | case1 members => rw [List.length_singleton, Nat.choose_zero_right]
  | case2 size => rw [List.length_nil, List.length_nil, Nat.choose_zero_succ]
  | case3 size member members ih ih' =>
    rw [List.length_append, List.length_map, ih, ih', List.length_cons, Nat.choose_succ_succ]

/-- The selections of increasing numbers come in lexicographic order. -/
theorem pairwise_combinations {members : List Nat} (h : members.Pairwise (· < ·)) (size : Nat) :
    (combinations size members).Pairwise (· < ·) := by
  fun_induction combinations size members with
  | case1 => exact List.pairwise_singleton _ _
  | case2 => exact .nil
  | case3 size member members ih ih' =>
    obtain ⟨hmember, hmembers⟩ := List.pairwise_cons.1 h
    -- selections with the first member come before those without it; within each part by induction
    refine List.pairwise_append.2 ⟨?_, ih' hmembers, fun a ha b hb => ?_⟩
    · refine List.pairwise_map.2 ((ih hmembers).imp fun hless => ?_)
      exact List.cons_lt_cons_iff.2 (.inr ⟨rfl, hless⟩)
    · -- a selection without the first member begins with a later one, which is larger
      obtain ⟨rest, -, rfl⟩ := List.mem_map.1 ha
      obtain ⟨hsub, hlength⟩ := mem_combinations.1 hb
      obtain ⟨first, rest', rfl⟩ := List.exists_cons_of_length_eq_add_one hlength
      exact List.cons_lt_cons_iff.2 (.inl (hmember first (hsub.subset List.mem_cons_self)))

end Combinations

/-! ## 2. Options that can be chosen -/

theorem pairwise_eligible (weights : List Rat) : (eligible weights).Pairwise (· < ·) :=
  List.Pairwise.sublist (eligibleFrom_sublist 0 weights) List.pairwise_lt_range'

theorem length_eligible (options : List (Weighted Command)) :
    (eligible (options.map (·.weight))).length = (positiveOptions options).length := by
  have hchoices := congrArg List.length (map_optionsAt_variantChoices_one options)
  rwa [List.length_map, List.length_map, variantChoices_one, List.length_map] at hchoices

theorem mem_eligible {options : List (Weighted Command)} {index : Nat} :
    index ∈ eligible (options.map (·.weight)) ↔
      ∃ option, options[index]? = some option ∧ 0 < option.weight := by
  rw [eligible, mem_eligibleFrom]
  simp only [Nat.zero_le, true_and, Nat.sub_zero, List.getElem?_map, Option.map_eq_some_iff,
    exists_exists_and_eq_and]

/-- Increasing indices of options with a weight are a selection of them. -/
theorem sublist_eligible {options : List (Weighted Command)} {choice : List Nat} :
    choice.Sublist (eligible (options.map (·.weight))) ↔ choice.Pairwise (· < ·) ∧
      ∀ index ∈ choice, ∃ option, options[index]? = some option ∧ 0 < option.weight := by
  have hpool := pairwise_eligible (options.map (·.weight))
  refine ⟨fun hsub => ⟨hpool.sublist hsub, fun index hmem => mem_eligible.1 (hsub.subset hmem)⟩,
    fun ⟨hincreasing, hall⟩ => ?_⟩
  have hsubset : choice ⊆ eligible (options.map (·.weight)) := fun index hmem =>
    mem_eligible.2 (hall index hmem)
  exact List.sublist_of_subperm_of_pairwise (hincreasing.nodup.subperm hsubset) hincreasing hpool

/-! ## 3. Choices -/

/-- The smaller choice first, and of two of one size the one that is lower at the first place where
they differ. -/
def ChosenBefore (a b : List Nat) : Prop :=
  a.length < b.length ∨ a.length = b.length ∧ a < b

theorem mem_variantChoices {weights : List Rat} {least most : Nat} {choice : List Nat} :
    choice ∈ variantChoices weights least most ↔ choice.Sublist (eligible weights) ∧
      max least 1 ≤ choice.length ∧ choice.length ≤ min most (eligible weights).length := by
  simp only [variantChoices, List.mem_flatMap, List.mem_range'_1, mem_combinations]
  constructor
  · rintro ⟨size, hsize, hsub, rfl⟩
    exact ⟨hsub, by omega⟩
  · rintro ⟨hsub, hsize⟩
    exact ⟨_, by omega, hsub, rfl⟩

theorem pairwise_variantChoices (weights : List Rat) (least most : Nat) :
    (variantChoices weights least most).Pairwise ChosenBefore := by
  rw [variantChoices, List.pairwise_flatMap]
  have hsize {size : Nat} {choice : List Nat} (h : choice ∈ combinations size (eligible weights)) :
      choice.length = size := (mem_combinations.1 h).2
  constructor
  · intro size _
    refine (pairwise_combinations (pairwise_eligible weights) size).imp_of_mem fun ha hb hless => ?_
    exact .inr ⟨(hsize ha).trans (hsize hb).symm, hless⟩
  · refine List.Pairwise.imp (fun hless a ha b hb => .inl ?_) List.pairwise_lt_range'
    rwa [hsize ha, hsize hb]

theorem length_variantChoices (weights : List Rat) (least most : Nat) :
    (variantChoices weights least most).length =
      ∑ size ∈ Finset.Icc (max least 1) (min most (eligible weights).length),
        (eligible weights).length.choose size := by
  simp only [variantChoices, List.length_flatMap, length_combinations]
  rfl

/-- **The choices of a variant.** A choice is listed just when it is a strictly increasing sequence
of indices of options with a weight above zero, and has as many members as the bounds allow, at
least one and at most all such options. No choice is listed twice; they come by size, and those of
one size in lexicographic order. So for every size that is allowed there are as many as there are
ways of choosing so many of these options, and there are none just when no size is allowed. -/
theorem variantChoices_selections (options : List (Weighted Command)) (least most : Nat) :
    (∀ choice : List Nat, choice ∈ variantChoices (options.map (·.weight)) least most ↔
      choice.Pairwise (· < ·) ∧
      (∀ index ∈ choice, ∃ option, options[index]? = some option ∧ 0 < option.weight) ∧
      max least 1 ≤ choice.length ∧ choice.length ≤ min most (positiveOptions options).length) ∧
    (variantChoices (options.map (·.weight)) least most).Nodup ∧
    (variantChoices (options.map (·.weight)) least most).Pairwise ChosenBefore ∧
    (variantChoices (options.map (·.weight)) least most).length =
      ∑ size ∈ Finset.Icc (max least 1) (min most (positiveOptions options).length),
        (positiveOptions options).length.choose size ∧
    (variantChoices (options.map (·.weight)) least most = [] ↔
      ¬∃ size, max least 1 ≤ size ∧ size ≤ min most (positiveOptions options).length) := by
  have hordered := pairwise_variantChoices (options.map (·.weight)) least most
  have hlength := length_variantChoices (options.map (·.weight)) least most
  rw [length_eligible] at hlength
  refine ⟨fun choice => ?_, hordered.imp fun hbefore heq => ?_, hordered, hlength, ?_⟩
  · rw [mem_variantChoices, sublist_eligible, length_eligible, and_assoc]
  · subst heq
    -- two places of the order are never equal: either the size or the first
    -- difference tells them apart
    rcases hbefore with hless | ⟨-, hless⟩
    · exact Nat.lt_irrefl _ hless
    · exact List.lt_irrefl _ hless
  · rw [← List.length_eq_zero_iff, hlength, Finset.sum_eq_zero_iff]
    constructor
    · rintro hnone ⟨size, hleast, hmost⟩
      have hpos := Nat.choose_pos (hmost.trans (Nat.min_le_right _ _))
      exact absurd (hnone size (Finset.mem_Icc.2 ⟨hleast, hmost⟩)) (Nat.pos_iff_ne_zero.1 hpos)
    · intro hnone size hsize
      exact absurd ⟨size, Finset.mem_Icc.1 hsize⟩ hnone

end PromptTemplate
