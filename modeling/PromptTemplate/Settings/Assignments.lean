/-
`Assignments.lean` -- variables written in a file.

A line assigns a value to a name, with an equals sign or a colon. A value may stand
in quotes of three kinds and then go over several lines; in double quotes the two
escapes for line ends are replaced. What follows a number sign is a remark.

Programs take the reader of such files as a parameter (`ProcessStart.assignments`); this is
the one that they are run with.
-/
import PromptTemplate.Pattern.Reader
import PromptTemplate.Settings.Variables

set_option autoImplicit false

namespace PromptTemplate

namespace Assignments

/-! ## 1. The patterns -/

/-- The pattern of a line: the name is its first group, the value the second. -/
def linePattern : Text :=
  units "(?:^|^)\\s*(?:export\\s+)?([\\w.-]+)(?:\\s*=\\s*?|:\\s+?)"
    ++ units "(\\s*'(?:\\\\'|[^'])*'|\\s*\"(?:\\\\\"|[^\"])*\"|\\s*`(?:\\\\`|[^`])*`|[^#\\r\\n]+)?"
    ++ units "\\s*(?:#.*)?(?:$|$)"

/-- The pattern of a value in quotes: what is between them is the second group. -/
def quotedPattern : Text := units "^(['\"`])([\\s\\S]*)\\1$"

/-- A match: the text before it, what the groups took, and the text after it. -/
structure Found where
  before : Text
  groups : List (Option Text)
  after : Text

/-- The first match in what follows a place. -/
def findFrom (pattern : Pattern) (before rest : Text) : Option (Found × Text) :=
  (pattern.search before.length before rest).map fun (first, last) =>
    (⟨rest.take (first.position - before.length), last.captures, last.after⟩, last.before)

/-- All matches in what follows a place. -/
def matchesFrom (pattern : Pattern) : (fuel : Nat) → (before rest : Text) → List Found
  | 0, _, _ => []
  | fuel + 1, before, rest =>
    match findFrom pattern before rest with
    | none => []
    | some (found, before) => found :: matchesFrom pattern fuel before found.after

/-- All matches of a pattern that never matches nothing. -/
def allMatches (pattern : Pattern) (t : Text) : List Found :=
  matchesFrom pattern (t.length + 1) [] t

/-! ## 2. Values -/

/-- Each match of a pattern replaced by what one of its groups took. -/
def replaceByGroup (pattern : Pattern) (group : Nat) (t : Text) : Text :=
  let found := allMatches pattern t
  found.flatMap (fun f => f.before ++ ((f.groups[group - 1]?).bind id).getD [])
    ++ (match found.getLast? with
      | none => t
      | some f => f.after)

/-- Each backslash with a letter after it replaced by a unit. -/
def replaceEscape (letter replacement : CodeUnit) : Text → Text
  | [] => []
  | [u] => [u]
  | u :: v :: rest =>
    if u = 92 ∧ v = letter then replacement :: replaceEscape letter replacement rest
    else u :: replaceEscape letter replacement (v :: rest)

/-- The value that a written value stands for. -/
def valueOf (written : Text) : Text :=
  let trimmed := written.trim
  let bare :=
    match Pattern.read true quotedPattern with
    | .ok pattern => replaceByGroup pattern 2 trimmed
    | .error _ => trimmed
  if trimmed.head? = some 34 then replaceEscape 114 13 (replaceEscape 110 10 bare) else bare

/-! ## 3. Files -/

/-- The text with one kind of line end. -/
def unifyLineEnds : Text → Text
  | [] => []
  | [u] => if u = 13 then [10] else [u]
  | u :: v :: rest =>
    if u = 13 ∧ v = 10 then 10 :: unifyLineEnds rest
    else if u = 13 then 10 :: unifyLineEnds (v :: rest)
    else u :: unifyLineEnds (v :: rest)

/-- The variables that a text assigns, the latest first. -/
def read (t : Text) : ProcessVariables :=
  match Pattern.read true linePattern with
  | .error _ => []
  | .ok pattern =>
    ((allMatches pattern (unifyLineEnds t)).map fun found =>
      (((found.groups[0]?).bind id).getD [],
        valueOf (((found.groups[1]?).bind id).getD []))).reverse

end Assignments

end PromptTemplate
