/-
`Variables.lean` -- settings from variables of the process.

A variable that is empty counts as one that is not set.
-/
import PromptTemplate.Command
import PromptTemplate.Number.Decimal

set_option autoImplicit false

namespace PromptTemplate

/-- The variables of a process by name; the first entry of a name counts. -/
abbrev ProcessVariables := List (Text × Text)

/-- A setting that can not be used. -/
inductive SettingsError
  | notInteger (name value : Text)
  | notBoolean (name value : Text)
  | stage (value : Text)
  | logLevel (value : Text)
  | method (value : Text)
  | count (value : Number)
  deriving DecidableEq, Repr

/-- The error in words. -/
def SettingsError.message : SettingsError → Text
  | notInteger name value =>
    units "Environment variable " ++ name ++ units " must be a valid integer, got: " ++ value
  | notBoolean name value =>
    units "Environment variable " ++ name ++
      units " must be a boolean (true/false/1/0/yes/no), got: " ++ value
  | stage value =>
    units "Invalid NODE_ENV: " ++ value ++ units ". Must be development, production, or test."
  | logLevel value =>
    units "Invalid LOG_LEVEL: " ++ value ++ units ". Must be debug, info, warn, or error."
  | method value =>
    units "Invalid PROMPTS_DEFAULT_METHOD: " ++ value ++ units ". Must be " ++
      Sampling.names ++ units "."
  | count value =>
    units "Invalid PROMPTS_DEFAULT_COUNT: " ++ value.toText ++ units ". Must be zero or more."

namespace ProcessVariables

/-- The value of a variable that is set and not empty. -/
def value? (vars : ProcessVariables) (name : Text) : Option Text :=
  (vars.lookup name).filter fun value => !value.isEmpty

/-- A text, or the given one. -/
def text (vars : ProcessVariables) (name otherwise : Text) : Text :=
  (value? vars name).getD otherwise

/-- A whole number, if the variable is set. -/
def integer? (vars : ProcessVariables) (name : Text) : Except SettingsError (Option Number) :=
  match value? vars name with
  | none => .ok none
  | some value =>
    let number := Number.ofText value
    if number.toInt?.isSome then .ok (some number) else .error (.notInteger name value)

/-- A whole number, or the given one. -/
def integer (vars : ProcessVariables) (name : Text) (otherwise : Number) :
    Except SettingsError Number :=
  (integer? vars name).map (·.getD otherwise)

/-- The words for yes, in small letters. -/
def yes : List Text := [units "true", units "1", units "yes"]

/-- The words for no, in small letters. -/
def no : List Text := [units "false", units "0", units "no"]

/-- Yes or no in small or capital letters, or the given answer. -/
def boolean (vars : ProcessVariables) (name : Text) (otherwise : Bool) :
    Except SettingsError Bool :=
  match value? vars name with
  | none => .ok otherwise
  | some value =>
    let small := value.map CodeUnit.toLower
    if yes.contains small then .ok true
    else if no.contains small then .ok false
    else .error (.notBoolean name value)

/-- The variables of a process together with those that a file assigns, which set no variable that
is there already. -/
def withFile (vars : ProcessVariables) (assignments : Text → ProcessVariables)
    (file : Option Text) : ProcessVariables :=
  match file with
  | none => vars
  | some t => vars ++ assignments t

end ProcessVariables

end PromptTemplate
