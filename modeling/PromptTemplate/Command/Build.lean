/-
`Build.lean` -- making nodes that keep the rules of the model.

Every node is made by one of these functions, by the template reader as well as
by hand. Each checks what it is given and brings it into the one form that the
rest of the program relies on: sequences have two children at least and no two
literals side by side, bounds lie between one and the number of options, chances
lie between zero and one, and a name that is a literal is a fixed name.
-/
import PromptTemplate.Command
import PromptTemplate.Number.Decimal
import PromptTemplate.Pattern.Reader

set_option autoImplicit false

namespace PromptTemplate

/-! ## 1. What can be refused -/

/-- The two uses of a variable's name. -/
inductive VariableUse
  | access
  | assignment
  deriving DecidableEq, Repr

/-- Why a node can not be made. -/
inductive BuildError
  | weight (value : Number)
  | bound (upper : Bool) (value : Number)
  | invertedBounds (least most : Nat)
  | wildcardName
  | chance
  | pattern (source : Text) (fault : Pattern.Fault)
  | noBranches
  | variableName (use : VariableUse) (name : Text)
  deriving DecidableEq, Repr

namespace BuildError

/-- The kind of node that was to be made. -/
def commandType : BuildError → Text
  | weight _ | bound _ _ | invertedBounds _ _ => units "variant"
  | wildcardName => units "wildcard"
  | chance => units "probability"
  | pattern _ _ | noBranches => units "condition"
  | variableName .access _ => units "variable-access"
  | variableName .assignment _ => units "variable-assignment"

/-- The reason in words. -/
def message : BuildError → Text
  | weight value =>
    units "Variant option weight must be a finite non-negative number, got: " ++ value.toText
  | bound upper value =>
    units "Variant " ++ units (if upper then "upper" else "lower")
      ++ units " bound must be a non-negative integer, got: " ++ value.toText
  | invertedBounds least most =>
    units "Invalid variant bound " ++ (Number.ofNat least).toText ++ units "-"
      ++ (Number.ofNat most).toText
      ++ units ": lower bound is greater than upper bound"
  | wildcardName => units "Wildcard name must not be empty"
  | chance => units "Probability chance must be a number"
  | pattern source fault =>
    units "Invalid condition pattern \"" ++ source ++ units "\": " ++ fault.message source
  | noBranches => units "A condition needs at least one branch"
  | variableName _ name => units "Invalid variable name: \"" ++ name ++ units "\""

end BuildError

/-! ## 2. Names of variables -/

/-- Whether a unit can begin the name of a variable. -/
def beginsVariable (u : CodeUnit) : Bool := u.isLetter || u == 95 || u == 45

/-- Whether a unit can go on the name of a variable. -/
def continuesVariable (u : CodeUnit) : Bool := beginsVariable u || u.isDigit

/-- Whether a text is the name of a variable. -/
def isVariableName : Text → Bool
  | [] => false
  | u :: rest => beginsVariable u && rest.all continuesVariable

namespace Command

/-! ## 3. Sequences -/

/-- Joins each literal with a literal right before it. -/
def mergeLiterals : List Command → List Command
  | [] => []
  | .literal s :: rest =>
    match mergeLiterals rest with
    | .literal t :: merged => .literal (s ++ t) :: merged
    | merged => .literal s :: merged
  | other :: rest => other :: mergeLiterals rest

/-- The commands one after another; none is the empty literal and one is itself. -/
def ofList (commands : List Command) : Command :=
  match mergeLiterals commands with
  | [] => .literal []
  | [command] => command
  | merged => .sequence merged

/-! ## 4. Variants -/

/-- What is declared of a variant besides its options. -/
structure VariantSettings where
  least : Option Number
  most : Option Number
  separator : Option Text
  sampling : Option Sampling

/-- The separator of a variant that declares none. -/
def defaultSeparator : Text := units ","

/-- A weight that is finite and not negative. -/
def checkWeight (weight : Number) : Except BuildError Rat :=
  match weight with
  | .finite q => if q < 0 then .error (.weight weight) else .ok q
  | _ => .error (.weight weight)

/-- The options with their weights checked, one where none is given. -/
def checkOptions : List (Option Number × Command) → Except BuildError (List (Weighted Command))
  | [] => .ok []
  | (weight, value) :: rest => do
    let weight ← checkWeight (weight.getD 1)
    let rest ← checkOptions rest
    return ⟨weight, value⟩ :: rest

/-- A bound that is a natural number, if it is given. -/
def checkBound (upper : Bool) : Option Number → Except BuildError (Option Nat)
  | none => .ok none
  | some bound =>
    match bound.toNat? with
    | some n => .ok (some n)
    | none => .error (.bound upper bound)

/-- A variant. Without bounds it picks one option; without an upper bound it picks
up to all of them. Bounds beyond the number of options are clamped to it. -/
def makeVariant (label : Label) (options : List (Option Number × Command))
    (settings : VariantSettings) :
    Except BuildError Command := do
  let options ← checkOptions options
  let least ← checkBound false settings.least
  let most ← checkBound true settings.most
  let count := options.length
  let declaredLeast := least.getD 1
  let declaredMost := most.getD (if least.isNone then 1 else count)
  if most.isSome ∧ declaredMost < declaredLeast then
    .error (.invertedBounds declaredLeast declaredMost)
  else
    let lower := min (max declaredLeast 1) count
    let upper := min (max declaredMost lower) count
    return .variant label options lower upper (settings.separator.getD defaultSeparator)
      settings.sampling

/-! ## 5. The other nodes -/

/-- A wildcard by a name that may be a command. -/
def makeWildcard (label : Label) (name : WildcardName Command) (inlined : List (Text × Command))
    (sampling : Option Sampling) : Except BuildError Command :=
  let plain : WildcardName Command :=
    match name with
    | .rendered (.literal t) => .fixed t
    | other => other
  match plain with
  | .fixed [] => .error .wildcardName
  | _ => .ok (.wildcard label plain inlined sampling)

/-- A probability, its chance clamped between zero and one. -/
def makeProbability (label : Label) (chance : Number) (value : Command)
    (sampling : Option Sampling) :
    Except BuildError Command :=
  match chance with
  | .nan => .error .chance
  | .negInf => .ok (.probability label 0 value sampling)
  | .posInf => .ok (.probability label 1 value sampling)
  | .finite q =>
    .ok (.probability label (if q < 0 then 0 else if 1 < q then 1 else q) value sampling)

/-- A branch as it is declared. -/
structure BranchInput where
  key : Option Text
  pattern : Text
  value : Command

/-- The branches with their expressions compiled. -/
def compileBranches : List BranchInput → Except BuildError (List (Guarded Command))
  | [] => .ok []
  | branch :: rest =>
    match Pattern.read false branch.pattern with
    | .error fault => .error (.pattern branch.pattern fault)
    | .ok pattern => do
      let rest ← compileBranches rest
      return ⟨⟨branch.key, branch.pattern, pattern⟩, branch.value⟩ :: rest

/-- A condition of at least one branch. -/
def makeCondition (branches : List BranchInput) (otherwise : Command) : Except BuildError Command :=
  if branches.isEmpty then .error .noBranches
  else (compileBranches branches).map fun branches => .condition branches otherwise

/-- The reading of a variable. -/
def makeAccess (name : Text) (fallback : Option Command) : Except BuildError Command :=
  if isVariableName name then .ok (.access name fallback) else .error (.variableName .access name)

/-- The binding of a variable. -/
def makeAssignment (name : Text) (value : Command) (overwrite immediate : Bool) :
    Except BuildError Command :=
  if isVariableName name then .ok (.assignment name value overwrite immediate)
  else .error (.variableName .assignment name)

end Command

end PromptTemplate
