/-
`Describe.lean` -- a tree on one line.

Every field is written but one: the method of a probability, which no template
declares.
-/
import PromptTemplate.Command
import PromptTemplate.Number.Decimal
import PromptTemplate.Text.Quoted

set_option autoImplicit false

namespace PromptTemplate.Command

/-- The marker of a method that a node declares, or nothing. -/
def markerText (sampling : Option Sampling) : Text := (sampling.map Sampling.marker).toList

/-- What a guard tests: a variable's name and a tilde, when there is one, and the
expression between slashes. -/
def describeGuard (guard : Guard) : Text :=
  (match guard.key with
    | some key => key ++ units "~"
    | none => [])
    ++ units "/" ++ guard.source ++ units "/"

mutual

/-- The line of a tree. -/
def describe : Command → Text
  | .literal t => t.quote
  | .comment t => units "comment(" ++ t.quote ++ units ")"
  | .sequence children => units "seq(" ++ Text.join (units ", ") (describeAll children) ++ units ")"
  | .variant _ options least most separator sampling =>
    units "variant" ++ markerText sampling ++ units "(" ++ Text.ofNat least ++ units "-"
      ++ Text.ofNat most
      ++ units " " ++ separator.quote ++ units ")["
      ++ Text.join (units " | ") (describeOptions options)
      ++ units "]"
  | .wildcard _ name inlined sampling =>
    units "wildcard" ++ markerText sampling ++ units "(" ++ describeName name
      ++ (match inlined with
        | [] => []
        | _ => units ", \x7b" ++ Text.join (units ", ") (describeVariables inlined) ++ units "\x7d")
      ++ units ")"
  | .wrap wrapper inner =>
    units "wrap(" ++ describe wrapper ++ units ", " ++ describe inner ++ units ")"
  | .probability _ chance value _ =>
    units "chance(" ++ Decimal.ofRat chance ++ units ", " ++ describe value ++ units ")"
  | .condition branches otherwise =>
    units "if("
      ++ Text.join (units "; ")
        (describeBranches branches ++ [units "else => " ++ describe otherwise])
      ++ units ")"
  | .access name fallback =>
    match fallback with
    | some value => units "$" ++ name ++ units ":" ++ describe value
    | none => units "$" ++ name
  | .assignment name value overwrite immediate =>
    units "$" ++ name ++ units (if overwrite then "=" else "?=")
      ++ units (if immediate then "!" else "")
      ++ describe value

/-- The name of a wildcard: as it is, or the line of the command that renders it. -/
def describeName : WildcardName Command → Text
  | .fixed name => name
  | .rendered command => describe command

/-- The lines of several trees. -/
def describeAll : List Command → List Text
  | [] => []
  | command :: rest => describe command :: describeAll rest

/-- Options with their weights. -/
def describeOptions : List (Weighted Command) → List Text
  | [] => []
  | ⟨weight, value⟩ :: rest =>
    (Decimal.ofRat weight ++ units "::" ++ describe value) :: describeOptions rest

/-- Variables with their values. -/
def describeVariables : List (Text × Command) → List Text
  | [] => []
  | (name, value) :: rest => (name ++ units "=" ++ describe value) :: describeVariables rest

/-- Branches with their guards. -/
def describeBranches : List (Guarded Command) → List Text
  | [] => []
  | ⟨guard, value⟩ :: rest =>
    (describeGuard guard ++ units " => " ++ describe value) :: describeBranches rest

end

end PromptTemplate.Command
