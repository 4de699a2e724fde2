/-
`Json.lean` -- values of the interchange format, and their two written forms.

An object keeps its members in the order in which a reader of the format lists
them: keys that are array indices first, ascending, then the others as they came
in; writing a key again replaces its value in place.
-/
import PromptTemplate.Number.Decimal
import PromptTemplate.Text.Quoted

set_option autoImplicit false

namespace PromptTemplate

/-- A value of the interchange format. -/
inductive Json
  | null
  | bool (value : Bool)
  | num (value : Number)
  | str (value : Text)
  | arr (items : List Json)
  | obj (members : List (Text × Json))
  deriving Inhabited

namespace Json

/-! ## 1. Members -/

/-- The array index that a key spells: a decimal numeral without leading zeros
below 2 ^ 32 - 1. -/
def arrayIndex? (key : Text) : Option Nat :=
  if key.isEmpty || !key.all CodeUnit.isDigit then none
  else if key.length > 1 && key.head? = some 48 then none
  else
    let n := Text.digitsValue key
    if key.length ≤ 10 ∧ n < 4294967295 then some n else none

/-- Puts a new key where the order of members has it. -/
def place {α : Type} (key : Text) (value : α) : List (Text × α) → List (Text × α)
  | [] => [(key, value)]
  | (k, v) :: rest =>
    match arrayIndex? key, arrayIndex? k with
    | some n, some m =>
      if n < m then (key, value) :: (k, v) :: rest else (k, v) :: place key value rest
    | some _, none => (key, value) :: (k, v) :: rest
    | none, _ => (k, v) :: place key value rest

/-- Sets a member: in place when the key is there, else where it belongs. -/
def setMember {α : Type} (key : Text) (value : α) (members : List (Text × α)) : List (Text × α) :=
  if members.any (fun m => m.1 = key) then
    members.map fun m => if m.1 = key then (key, value) else m
  else place key value members

/-- The member of an object with this key. -/
def get? (key : Text) : Json → Option Json
  | obj members => members.lookup key
  | _ => none

/-! ## 2. Writing on one line -/

/-- A number; what is not finite has no written form and becomes null. -/
def numText : Number → Text
  | .finite q => Decimal.ofRat q
  | _ => units "null"

mutual

/-- The value without any blanks. -/
def compact : Json → Text
  | null => units "null"
  | bool b => units (if b then "true" else "false")
  | num n => numText n
  | str t => t.quote
  | arr items => units "[" ++ Text.join (units ",") (compactItems items) ++ units "]"
  | obj members => units "\x7b" ++ Text.join (units ",") (compactMembers members) ++ units "\x7d"

/-- Each item without any blanks. -/
def compactItems : List Json → List Text
  | [] => []
  | item :: items => compact item :: compactItems items

/-- Each member without any blanks. -/
def compactMembers : List (Text × Json) → List Text
  | [] => []
  | (key, value) :: members => (key.quote ++ units ":" ++ compact value) :: compactMembers members

end

/-! ## 3. Writing over several lines -/

/-- A line break and `depth` steps of two blanks. -/
def lineBreak (depth : Nat) : Text := 10 :: List.replicate (2 * depth) 32

/-- Brackets around parts that each stand on a line of their own; nothing between
the brackets when there is no part. -/
def block (depth : Nat) (opener closer : CodeUnit) (parts : List Text) : Text :=
  if parts.isEmpty then [opener, closer]
  else
    opener :: (lineBreak (depth + 1) ++ Text.join (44 :: lineBreak (depth + 1)) parts)
      ++ lineBreak depth ++ [closer]

mutual

/-- The value with one item or member a line, indented by two blanks a level. -/
def indented (depth : Nat) : Json → Text
  | null => units "null"
  | bool b => units (if b then "true" else "false")
  | num n => numText n
  | str t => t.quote
  | arr items => block depth 91 93 (indentedItems (depth + 1) items)
  | obj members => block depth 123 125 (indentedMembers (depth + 1) members)

/-- Each item, indented. -/
def indentedItems (depth : Nat) : List Json → List Text
  | [] => []
  | item :: items => indented depth item :: indentedItems depth items

/-- Each member, indented. -/
def indentedMembers (depth : Nat) : List (Text × Json) → List Text
  | [] => []
  | (key, value) :: members =>
    (key.quote ++ units ": " ++ indented depth value) :: indentedMembers depth members

end

/-- The value over several lines. -/
def pretty (value : Json) : Text := indented 0 value

end Json

end PromptTemplate
