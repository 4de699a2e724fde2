/-
`Choices.lean` -- what a block can choose.

A variant chooses some of its options: as many as its bounds allow, in the order
in which they are declared. The choices are listed by their size and then by
index, and an option without weight is in none.
-/
import PromptTemplate.Number

set_option autoImplicit false

namespace PromptTemplate

/-- The selections of `size` members, in the order of the list. -/
def combinations {α : Type} : (size : Nat) → List α → List (List α)
  | 0, _ => [[]]
  | _ + 1, [] => []
  | size + 1, x :: xs => (combinations size xs).map (x :: ·) ++ combinations (size + 1) xs

/-- The indices of the weights above zero, counted from `first`. -/
def eligibleFrom : (first : Nat) → List Rat → List Nat
  | _, [] => []
  | first, weight :: weights =>
    if 0 < weight then first :: eligibleFrom (first + 1) weights
    else eligibleFrom (first + 1) weights

/-- The indices of the options that can be chosen. -/
def eligible (weights : List Rat) : List Nat := eligibleFrom 0 weights

/-- The choices of a variant: the selections of eligible options of every size that
its bounds allow. -/
def variantChoices (weights : List Rat) (least most : Nat) : List (List Nat) :=
  let pool := eligible weights
  let first := max least 1
  let last := min most pool.length
  (List.range' first (last + 1 - first)).flatMap fun size => combinations size pool

/-- The outcomes of a chance: left out, then put in. An outcome without any chance
is not listed. -/
def probabilityChoices (chance : Number) : List Bool :=
  (if chance.lt 1 then [false] else []) ++ (if Number.lt 0 chance then [true] else [])

end PromptTemplate
