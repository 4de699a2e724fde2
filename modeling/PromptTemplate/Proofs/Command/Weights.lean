/-
`Weights.lean` -- the weights of options are numbers of the grid.

A weight that is given is a number of the grid, and so is one that a template writes, because
reading a number rounds it. The constructor of variants refuses what is negative or infinite and
keeps the rest as it is.
-/
import PromptTemplate.Proofs.Command.NormalForm
import PromptTemplate.Proofs.Expansion.Draws
import PromptTemplate.Proofs.Number.Grid

set_option autoImplicit false

namespace PromptTemplate

/-! ## 1. Numbers -/

/-- A number that is on the grid if it is finite. -/
def Number.Rounded (n : Number) : Prop := ∀ v, n = .finite v → Binary64.round v = .finite v

/-- What is read as decimal digits is rounded. -/
theorem Decimal.scale_rounded (mantissa : Nat) (exponent : Int) :
    (Decimal.scale mantissa exponent).Rounded := by
  intro v hv
  unfold Decimal.scale at hv
  split at hv
  · cases hv
    rfl
  · split at hv
    · cases hv
    · split at hv
      · cases hv
        rfl
      · refine Binary64.round_of_round ?_ hv
        exact mul_nonneg (Nat.cast_nonneg mantissa) (powerOfTen_nonneg exponent)

/-! ## 2. Options -/

/-- A weight that passes its check is a number of the grid, if it was given as one. -/
theorem onGrid_of_checkWeight {weight : Option Number} {q : Rat}
    (hgrid : ∀ n, weight = some n → n.Rounded)
    (h : Command.checkWeight (weight.getD 1) = .ok q) : OnGrid q := by
  unfold Command.checkWeight at h
  split at h
  · next given hgiven =>
    split at h
    · cases h
    · next hnonneg =>
      cases h
      refine ⟨not_lt.1 hnonneg, ?_⟩
      -- an option without a weight weighs one, which is on the grid
      cases weight with
      | none =>
        cases hgiven
        exact Binary64.round_natCast (n := 1) (by decide)
      | some weight => exact hgrid weight rfl q hgiven
  · cases h

namespace Command

/-- The options of the node are weighed by numbers of the grid. -/
def Weighed : Command → Prop
  | .variant _ options _ _ _ _ => ∀ option ∈ options, OnGrid option.weight
  | _ => True

/-- The constructor of variants makes such nodes, if it is given numbers of the grid. -/
theorem makeVariant_weighed {label : Label} {options : List (Option Number × Command)}
    {settings : VariantSettings} {command : Command}
    (hgrid : ∀ option ∈ options, ∀ n, option.1 = some n → n.Rounded)
    (h : makeVariant label options settings = .ok command) : command.Weighed := by
  obtain ⟨checked, least, most, hchecked, rfl⟩ := exists_of_makeVariant h
  intro option hmem
  obtain ⟨given, hgiven, hweight, -⟩ := exists_of_mem_checkOptions hchecked hmem
  exact onGrid_of_checkWeight (hgrid given hgiven) hweight

end Command

end PromptTemplate
