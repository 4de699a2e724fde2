/-
`Wrap.lean` -- putting one text around another.

A wrapper marks the place of what it goes around by an ellipsis, of three full
stops or of one unit. The three stops are looked for first, and a wrapper without
a mark stands in front.
-/
import PromptTemplate.Text

set_option autoImplicit false

namespace PromptTemplate

/-- The ellipsis of one unit. -/
def ellipsis : Text := [0x2026]

/-- The wrapper with `inner` in place of its first mark. -/
def applyWrap (wrapper inner : Text) : Text :=
  match Text.cut (units "...") wrapper with
  | some (before, after) => before ++ inner ++ after
  | none =>
    match Text.cut ellipsis wrapper with
    | some (before, after) => before ++ inner ++ after
    | none => wrapper ++ inner

end PromptTemplate
