/-
`Arguments.lean` -- options and positional arguments.

An option has a name behind two dashes and may have a letter behind one. Its value
is the next argument, or stands behind an equals sign or right behind the letter;
letters without values can be put together. Behind two dashes alone everything is
positional. All arguments are read first, and then the first fault counts.
-/
import PromptTemplate.Text.Quoted

set_option autoImplicit false

namespace PromptTemplate

/-- An option that a program knows. -/
structure OptionSpec where
  name : Text
  letter : Option CodeUnit
  takesValue : Bool

/-- An argument that was read. A value is attached when it is part of the same
argument as its option. -/
inductive ArgumentToken
  | positional (value : Text)
  | option (name written : Text) (value : Option Text) (attached : Bool)

/-- A fault in the arguments. -/
inductive ArgumentFault
  | unknownOption (written : Text)
  | missingValue (option : Text)
  | unwantedValue (option : Text)
  | ambiguousValue (written : Text)
  deriving DecidableEq, Repr

/-- The fault in words. -/
def ArgumentFault.message : ArgumentFault → Text
  | unknownOption written =>
    units "Unknown option '" ++ written
      ++ units "'. To specify a positional argument starting with a '-', place it at the end "
      ++ units "of the command after '--', as in '-- " ++ written.quote
  | missingValue option => units "Option '" ++ option ++ units " <value>' argument missing"
  | unwantedValue option => units "Option '" ++ option ++ units "' does not take an argument"
  | ambiguousValue written =>
    units "Option '" ++ written
      ++ units "' argument is ambiguous.\nDid you forget to specify the option argument for '"
      ++ written ++ units "'?\nTo specify an option argument starting with a dash use '" ++ written
      ++ units "=-XYZ'."

/-- The values of the options and the positional arguments. -/
structure Arguments where
  options : List (Text × Option Text)
  positionals : List Text

namespace Arguments

/-- The dash. -/
def dash : CodeUnit := 45

/-- The option with this name. -/
def spec? (specs : List OptionSpec) (name : Text) : Option OptionSpec :=
  specs.find? fun spec => spec.name = name

/-- The option with this letter. -/
def specOfLetter? (specs : List OptionSpec) (letter : CodeUnit) : Option OptionSpec :=
  specs.find? fun spec => spec.letter = some letter

/-- The name that a letter stands for; a letter of no option stands for itself. -/
def nameOfLetter (specs : List OptionSpec) (letter : CodeUnit) : Text :=
  ((specOfLetter? specs letter).map (·.name)).getD [letter]

/-- Whether the option of a letter takes a value. -/
def letterTakesValue (specs : List OptionSpec) (letter : CodeUnit) : Bool :=
  (specOfLetter? specs letter).any (·.takesValue)

/-! ## 1. Letters -/

/-- How the letters of an argument end. -/
inductive LettersEnd
  | complete
  | wantsValue (name written : Text)
  | endsOptions (remaining : List Text)

/-- Letters taken apart into arguments of their own. -/
def apart (specs : List OptionSpec) : Text → List Text
  | [] => []
  | letter :: rest =>
    -- an option with a value takes the rest of the letters for it
    if letterTakesValue specs letter && !rest.isEmpty then [dash :: letter :: rest]
    else [dash, letter] :: apart specs rest

/-- The options of letters that stand together. A dash among them ends the options
as two dashes do. -/
def letterTokens (specs : List OptionSpec) : Text → List ArgumentToken × LettersEnd
  | [] => ([], .complete)
  | letter :: rest =>
    let name := nameOfLetter specs letter
    let written : Text := [dash, letter]
    -- a dash among the letters ends the options, and those after it become positional
    if letter = dash then ([], .endsOptions (apart specs rest))
    else if letterTakesValue specs letter then
      if rest.isEmpty then ([], .wantsValue name written)
      else ([.option name written (some rest) true], .complete)
    else
      let (tokens, ending) := letterTokens specs rest
      (.option name written none false :: tokens, ending)

/-! ## 2. Arguments -/

/-- Whether an argument holds letters. -/
def isLetters : Text → Bool
  | first :: second :: _ => first = dash && second != dash
  | _ => false

/-- The name of a long option and the value attached to it. There is one when an
equals sign stands behind the first unit of the name; it goes from the first sign. -/
def longOption? : Text → Option (Text × Option Text)
  | first :: second :: initial :: rest =>
    if first = dash ∧ second = dash then
      if Text.includes rest [61] then
        (Text.cut [61] (initial :: rest)).map fun (name, value) => (name, some value)
      else some (initial :: rest, none)
    else none
  | _ => none

/-- All arguments in order. -/
def tokens (specs : List OptionSpec) : List Text → List ArgumentToken
  | [] => []
  | argument :: rest =>
    -- behind two dashes everything is positional
    if argument = [dash, dash] then rest.map .positional
    else if isLetters argument then
      match letterTokens specs argument.tail with
      | (letters, .complete) => letters ++ tokens specs rest
      | (letters, .endsOptions remaining) => letters ++ (remaining ++ rest).map .positional
      -- the value of a letter is the next argument, whatever it looks like
      | (letters, .wantsValue name written) =>
        match rest with
        | [] => letters ++ [.option name written none false]
        | value :: rest => letters ++ .option name written (some value) false :: tokens specs rest
    else
      match longOption? argument with
      | none => .positional argument :: tokens specs rest
      | some (name, some value) =>
        .option name (dash :: dash :: name) (some value) true :: tokens specs rest
      | some (name, none) =>
        -- the value of a long option without an equals sign is the next argument, too
        match (spec? specs name).any (·.takesValue), rest with
        | true, value :: rest => .option name argument (some value) false :: tokens specs rest
        | _, rest => .option name argument none false :: tokens specs rest

/-! ## 3. Checks -/

/-- The option as messages show it. -/
def OptionSpec.shown (spec : OptionSpec) : Text :=
  (match spec.letter with
    | some letter => [dash, letter] ++ units ", "
    | none => [])
    ++ units "--" ++ spec.name

/-- Whether a value looks like an option. -/
def looksLikeOption (value : Text) : Bool := value.length > 1 && value.head? = some dash

/-- Checks how an option is used. -/
def checkOption (specs : List OptionSpec) (name written : Text) (value : Option Text)
    (attached : Bool) :
    Except ArgumentFault Unit :=
  match spec? specs name with
  | none => .error (.unknownOption written)
  | some spec =>
    match spec.takesValue, value with
    | true, none => .error (.missingValue (OptionSpec.shown spec))
    | false, some _ => .error (.unwantedValue (OptionSpec.shown spec))
    | true, some value =>
      -- an option in a value's place is refused, unless it is attached with a sign
      if !attached && looksLikeOption value then .error (.ambiguousValue written) else .ok ()
    | false, none => .ok ()

/-- Collects the arguments, each checked before the next. -/
def collect (specs : List OptionSpec) : List ArgumentToken → Except ArgumentFault Arguments
  | [] => .ok ⟨[], []⟩
  | .positional value :: rest =>
    (collect specs rest).map fun a => { a with positionals := value :: a.positionals }
  | .option name written value attached :: rest =>
    match checkOption specs name written value attached with
    | .error fault => .error fault
    | .ok () => (collect specs rest).map fun a => { a with options := (name, value) :: a.options }

/-- Reads the arguments of a program. -/
def read (specs : List OptionSpec) (arguments : List Text) : Except ArgumentFault Arguments :=
  collect specs (tokens specs arguments)

/-- The value of an option; of several the last one counts. -/
def value? (a : Arguments) (name : Text) : Option Text := (a.options.reverse.lookup name).bind id

/-- Whether an option is given. -/
def has (a : Arguments) (name : Text) : Bool := a.options.any fun entry => entry.1 = name

end Arguments

end PromptTemplate
