/-
`Turns.lean` -- what a tree renders to on each of its turns, in closed form.

A node that rotates through its choices takes on its turn `i` the choice `i` modulo their
number, so a part has been rendered as often as the choices of the turns before held it
(`visits`). With that the text of a turn is a function of the tree and the number of the
turn alone (`Command.rotation`), without counters, and as a function of the number it is
periodic (`Command.exists_period`).
-/
import Mathlib.Algebra.Ring.Periodic
import PromptTemplate.Proofs.Expansion.Choices
import PromptTemplate.Expansion.Walk
import PromptTemplate.Proofs.Command.Everywhere

set_option autoImplicit false

namespace PromptTemplate

/-! ## 1. Visits -/

section Visits

variable {α : Type} (taken : α → Bool) (choices : List α)

/-- How many of the first `i` turns through the choices take one with the property: as many
as there are for each whole round, and those of the round that has begun. -/
def visits (i : Nat) : Nat :=
  i / choices.length * choices.countP taken + (choices.take (i % choices.length)).countP taken

theorem visits_zero : visits taken choices 0 = 0 := by
  rw [visits, Nat.zero_div, Nat.zero_mod, Nat.zero_mul, List.take_zero, List.countP_nil]

variable {choices}

/-- A turn adds a visit if its choice has the property. -/
theorem visits_succ {i : Nat} {choice : α} (hchoice : choices[i % choices.length]? = some choice) :
    visits taken choices (i + 1) = visits taken choices i + if taken choice then 1 else 0 := by
  have hlt : i % choices.length < choices.length := (List.getElem?_eq_some_iff.1 hchoice).1
  have htake : (choices.take (i % choices.length + 1)).countP taken =
      (choices.take (i % choices.length)).countP taken + if taken choice then 1 else 0 := by
    rw [List.take_add_one, hchoice, List.countP_append, Option.toList_some, List.countP_singleton]
  have hdivide := Nat.div_add_mod i choices.length
  rw [visits, visits]
  -- either this choice ends a round of all choices, or the next one is in the same round
  by_cases hlast : i % choices.length + 1 = choices.length
  · -- the round is complete, and the next one has not begun
    have hnext : i + 1 = choices.length * (i / choices.length + 1) := by
      rw [Nat.mul_add_one]
      omega
    rw [hlast, List.take_length] at htake
    rw [hnext, Nat.mul_div_cancel_left _ (by omega), Nat.mul_mod_right, List.take_zero,
      List.countP_nil, Nat.add_one_mul, htake]
    omega
  · have hnext : i + 1 = choices.length * (i / choices.length) + (i % choices.length + 1) := by
      omega
    have hshort : i % choices.length + 1 < choices.length := by omega
    rw [hnext, Nat.mul_add_div (by omega), Nat.div_eq_of_lt hshort, Nat.mul_add_mod,
      Nat.mod_eq_of_lt hshort, htake, Nat.add_zero, Nat.add_assoc]

/-- Rounds that are complete add the same number of visits each. -/
theorem visits_add_mul {rounds : Nat} (hchoices : choices ≠ []) (i : Nat) :
    visits taken choices (i + choices.length * rounds) =
      visits taken choices i + rounds * choices.countP taken := by
  have hpos : 0 < choices.length := List.length_pos_iff.2 hchoices
  rw [visits, visits, Nat.add_mul_div_left _ _ hpos, Nat.add_mul_mod_self_left, Nat.add_mul]
  omega

end Visits

/-! ## 2. The text of a turn -/

mutual

/-- The text of a tree on turn `i` of its own. A variant joins the options of its choice,
and a part that is not always put in is put in if that is its outcome; each is on the turn
that is the number of its visits before. -/
def Command.rotation : Command → Nat → Text
  | .literal text, _ => text
  | .sequence children, i => (rotations children i).flatten
  | .wrap wrapper inner, i => applyWrap (wrapper.rotation i) (inner.rotation i)
  | .variant _ options least most separator _, i =>
    let choices := variantChoices (options.map (·.weight)) least most
    let choice := (choices[i % choices.length]?).getD []
    Text.join separator (choice.filterMap fun index =>
      (optionRotations options)[index]?.map fun rotation =>
        rotation (visits (·.contains index) choices i))
  | .probability _ chance value _, i =>
    let outcomes := probabilityChoices (.finite chance)
    if (outcomes[i % outcomes.length]?).getD false then value.rotation (visits id outcomes i)
    else []
  | _, _ => []

/-- The texts of nodes that are all on the same turn. -/
def rotations : List Command → Nat → List Text
  | [], _ => []
  | child :: children, i => child.rotation i :: rotations children i

/-- The texts of options as functions of their turns. -/
def optionRotations : List (Weighted Command) → List (Nat → Text)
  | [] => []
  | ⟨_, value⟩ :: options => value.rotation :: optionRotations options

end

/-- The options of the choice whose turn it is, each with its own turn. -/
def chosenTurns (options : List (Weighted Command)) (choices : List (List Nat)) (i : Nat) :
    List (Command × Nat) :=
  ((choices[i % choices.length]?).getD []).filterMap fun index =>
    options[index]?.map fun option => (option.value, visits (·.contains index) choices i)

/-- The text of a node on its turn. -/
def turnText (turn : Command × Nat) : Text := turn.1.rotation turn.2

namespace Command

theorem rotation_sequence (children : List Command) (i : Nat) :
    (sequence children).rotation i = (children.map (·.rotation i)).flatten := by
  have hchildren : rotations children i = children.map (·.rotation i) := by
    induction children with
    | nil => rfl
    | cons child children ih => rw [rotations, ih, List.map_cons]
  rw [rotation, hchildren]

variable (label : Label) (options : List (Weighted Command)) (least most : Nat) (separator : Text)
  (sampling : Option Sampling)

theorem rotation_variant (i : Nat) :
    (variant label options least most separator sampling).rotation i =
      Text.join separator
        ((chosenTurns options (variantChoices (options.map (·.weight)) least most) i).map
          turnText) := by
  have hoptions : optionRotations options = options.map fun option => option.value.rotation := by
    induction options with
    | nil => rfl
    | cons option options ih => rw [optionRotations, ih, List.map_cons]
  rw [rotation, hoptions, chosenTurns, List.map_filterMap]
  simp only [List.getElem?_map, Option.map_map, Function.comp_def, turnText]

theorem rotation_probability (chance : Rat) (value : Command) (i : Nat) :
    (probability label chance value sampling).rotation i =
      if ((probabilityChoices (.finite chance))[i %
          (probabilityChoices (.finite chance)).length]?).getD false then
        value.rotation (visits id (probabilityChoices (.finite chance)) i)
      else [] := by
  rw [rotation]

/-! ## 3. Periods -/

/-- Trees that have a period each have one in common. -/
theorem exists_common_period {commands : List Command}
    (h : ∀ command ∈ commands, ∃ period, 0 < period ∧ Function.Periodic command.rotation period) :
    ∃ period, 0 < period ∧ ∀ command ∈ commands, Function.Periodic command.rotation period := by
  induction commands with
  | nil => exact ⟨1, Nat.one_pos, nofun⟩
  | cons command commands ih =>
    obtain ⟨first, hfirst, hperiodic⟩ := h command List.mem_cons_self
    obtain ⟨rest, hrest, hall⟩ := ih fun other hmem => h other (List.mem_cons_of_mem _ hmem)
    refine ⟨rest * first, Nat.mul_pos hrest hfirst, List.forall_mem_cons.2 ⟨?_,
      fun other hmem => ?_⟩⟩
    · exact hperiodic.nat_mul rest
    · rw [Nat.mul_comm]
      exact (hall other hmem).nat_mul first

/-- A part that is visited as often in each round keeps its period, counted in rounds. -/
theorem rotation_visits {α : Type} {value : Command} {period : Nat}
    (hperiod : Function.Periodic value.rotation period) (taken : α → Bool) {choices : List α}
    (hchoices : choices ≠ []) (i : Nat) :
    value.rotation (visits taken choices (i + choices.length * period)) =
      value.rotation (visits taken choices i) := by
  rw [visits_add_mul taken hchoices, Nat.mul_comm]
  exact hperiod.nat_mul _ _

/-- The texts of a tree come around again. -/
theorem exists_period (command : Command) :
    ∃ period, 0 < period ∧ Function.Periodic command.rotation period := by
  -- a common period of the parts, times the number of choices, is a period of the node
  have hbelow : ∀ part ∈ command.parts,
      ∃ period, 0 < period ∧ Function.Periodic part.rotation period := fun part hmem =>
    have := sizeOf_lt_of_mem_parts hmem
    exists_period part
  obtain ⟨common, hpos, hparts⟩ := exists_common_period hbelow
  cases command with
  | sequence children =>
    refine ⟨common, hpos, fun i => ?_⟩
    rw [rotation_sequence, rotation_sequence]
    exact congrArg List.flatten (List.map_congr_left fun child hmem => hparts child hmem i)
  | wrap wrapper inner =>
    refine ⟨common, hpos, fun i => ?_⟩
    rw [rotation, rotation, hparts wrapper (by simp [parts]) i, hparts inner (by simp [parts]) i]
  | variant label options least most separator sampling =>
    by_cases hchoices : variantChoices (options.map (·.weight)) least most = []
    · exact ⟨1, Nat.one_pos, fun i => by simp [rotation_variant, chosenTurns, hchoices]⟩
    · refine ⟨_, Nat.mul_pos (List.length_pos_iff.2 hchoices) hpos, fun i => ?_⟩
      rw [rotation_variant, rotation_variant, chosenTurns, chosenTurns, List.map_filterMap,
        List.map_filterMap, Nat.add_mul_mod_self_left]
      refine congrArg (Text.join separator) (List.filterMap_congr fun index _ => ?_)
      cases hoption : options[index]? with
      | none => rfl
      | some option =>
        have hvalue := hparts option.value (List.mem_map_of_mem (List.mem_of_getElem? hoption))
        exact congrArg some (rotation_visits hvalue _ hchoices i)
  | probability label chance value sampling =>
    have hchoices := probabilityChoices_ne_nil chance
    refine ⟨_, Nat.mul_pos (List.length_pos_iff.2 hchoices) hpos, fun i => ?_⟩
    rw [rotation_probability, rotation_probability, Nat.add_mul_mod_self_left,
      rotation_visits (hparts value (List.mem_singleton_self _)) id hchoices]
  | _ => exact ⟨1, Nat.one_pos, fun i => by simp only [rotation]⟩
termination_by sizeOf command

end Command

end PromptTemplate
