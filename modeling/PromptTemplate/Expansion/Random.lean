/-
`Random.lean` -- sources of draws, and choices made by them.

A source is the whole sequence of its draws; how many were taken is counted
apart. The seeded source adds a fixed odd increment to a 32-bit state before each
draw and mixes the state into the draw, so its state after any number of draws is
known at once.
-/
import PromptTemplate.Number

set_option autoImplicit false

namespace PromptTemplate

/-- The draws of a source, in order. -/
abbrev Source := Nat → Number

namespace Source

/-! ## 1. The seeded source -/

/-- What each draw adds to the state. -/
def increment : UInt32 := 0x6D2B79F5

/-- The state after a number of draws. -/
def stateAfter (seed : UInt32) (draws : Nat) : UInt32 := seed + increment * UInt32.ofNat draws

/-- One more draw adds the increment once more. -/
theorem stateAfter_succ (seed : UInt32) (draws : Nat) :
    stateAfter seed (draws + 1) = stateAfter seed draws + increment := by
  rw [stateAfter, stateAfter, UInt32.ofNat_add, UInt32.mul_add, ← UInt32.add_assoc]
  congr 1

/-- The word that a state is mixed into. -/
def mix (state : UInt32) : UInt32 :=
  let first := (state ^^^ (state >>> 15)) * (state ||| 1)
  let second := (first + (first ^^^ (first >>> 7)) * (first ||| 61)) ^^^ first
  second ^^^ (second >>> 14)

/-- The word of a draw; the first draw is number zero. -/
def word (seed : UInt32) (draw : Nat) : UInt32 := mix (stateAfter seed (draw + 1))

/-- The source of a seed: its words as fractions of 2 ^ 32. -/
def seeded (seed : UInt32) : Source := fun draw => .finite (mkRat (word seed draw).toNat 4294967296)

/-! ## 2. Given draws -/

/-- The given draws over and over. -/
def repeating (draws : List Number) : Source := fun draw => (draws[draw % draws.length]?).getD .nan

end Source

/-! ## 3. Choices -/

/-- A whole number between two bounds, both included, and how many draws were taken
after it. A range without a second value takes none. -/
def randomInt (round : Rounding) (source : Source) (drawn : Nat) (least most : Number) :
    Number × Nat :=
  if most.le least then (least, drawn)
  else
    let width := Number.add round (Number.sub round most least) 1
    (Number.add round least (Number.mul round (source drawn) width).floor, drawn + 1)

/-- Walks along the weights until what remains falls below zero. -/
def indexAt (round : Rounding) : (remaining : Number) → List Number → Option Nat
  | _, [] => none
  | remaining, weight :: weights =>
    let remaining := Number.sub round remaining weight
    if remaining.lt 0 then some 0 else (indexAt round remaining weights).map (· + 1)

/-- The index of the last weight above zero. -/
def lastPositive : List Number → Option Nat
  | [] => none
  | weight :: weights =>
    match lastPositive weights with
    | some index => some (index + 1)
    | none => if Number.lt 0 weight then some 0 else none

/-- An index drawn in proportion to its weight, and how many draws were taken after
it; none when no weight is above zero. Rounding can leave a sliver behind the last
index, which then goes to the last one with a weight. -/
def weightedIndex (round : Rounding) (source : Source) (drawn : Nat) (weights : List Number) :
    Option Nat × Nat :=
  let total := weights.foldl (Number.add round) 0
  if total.le 0 then (none, drawn)
  else
    let point := Number.mul round (source drawn) total
    match indexAt round point weights with
    | some index => (some index, drawn + 1)
    | none => (lastPositive weights, drawn + 1)

end PromptTemplate
