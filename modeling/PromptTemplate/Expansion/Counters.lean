/-
`Counters.lean` -- where each rotating node stands.
-/
import PromptTemplate.Command

set_option autoImplicit false

namespace PromptTemplate

/-- The positions of the nodes that were visited, by label. -/
structure Counters where
  positions : List (Label × Nat)

namespace Counters

/-- No node visited yet. -/
def empty : Counters := ⟨[]⟩

/-- Where a node stands; zero before its first visit. -/
def position (c : Counters) (label : Label) : Nat := (c.positions.lookup label).getD 0

/-- Sets the position of one node in a list of positions. -/
def setIn (label : Label) (position : Nat) : List (Label × Nat) → List (Label × Nat)
  | [] => [(label, position)]
  | entry :: rest =>
    if entry.1 = label then (label, position) :: rest else entry :: setIn label position rest

/-- The position to use on this visit to a node of `size` choices, and the counters
after it. The size may have changed since the last visit. Without choices nothing
moves. -/
def next (c : Counters) (label : Label) (size : Nat) : Nat × Counters :=
  if size = 0 then (0, c)
  else
    let position := c.position label % size
    (position, ⟨setIn label ((position + 1) % size) c.positions⟩)

end Counters

end PromptTemplate
