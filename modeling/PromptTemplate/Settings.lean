/-
`Settings.lean` -- the settings of the programs.

They come from variables of the process. Numbers and answers are checked while they
are read; the other values are checked only when that is asked for.
-/
import PromptTemplate.Settings.Variables

set_option autoImplicit false

namespace PromptTemplate

/-- The settings of the programs. -/
structure Settings where
  stage : Text
  debug : Bool
  logLevel : Text
  method : Text
  count : Number
  wildcards : Text
  seed : Option Number
  deriving DecidableEq, Repr

namespace Settings

/-- The settings that some variables make. -/
def load (vars : ProcessVariables) : Except SettingsError Settings := do
  let debug ← vars.boolean (units "DEBUG") false
  let count ← vars.integer (units "PROMPTS_DEFAULT_COUNT") 1
  let seed ← vars.integer? (units "PROMPTS_SEED")
  return {
    stage := vars.text (units "NODE_ENV") (units "development")
    debug := debug
    logLevel := vars.text (units "LOG_LEVEL") (units "info")
    method := vars.text (units "PROMPTS_DEFAULT_METHOD") (Sampling.name .random)
    count := count
    wildcards := vars.text (units "PROMPTS_WILDCARD_DIR") (units "wildcards")
    seed := seed }

/-- The stages in which a program can run. -/
def stages : List Text := [units "development", units "production", units "test"]

/-- The names of the levels of a log. -/
def levels : List Text := [units "debug", units "info", units "warn", units "error"]

/-- Checks the settings that have a closed set of values, and the count. -/
def check (settings : Settings) : Except SettingsError Unit :=
  if !stages.contains settings.stage then .error (.stage settings.stage)
  else if !levels.contains settings.logLevel then .error (.logLevel settings.logLevel)
  else if (Sampling.ofName? settings.method).isNone then .error (.method settings.method)
  else if settings.count.lt 0 then .error (.count settings.count)
  else .ok ()

end Settings

end PromptTemplate
