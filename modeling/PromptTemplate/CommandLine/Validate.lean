/-
`Validate.lean` -- the program that checks everything a run will use.

It goes through the settings, the grammar, the values of all wildcards and the given
templates, one step after another, and reports what each came to.
-/
import PromptTemplate.CommandLine.Generate
import PromptTemplate.Json.Reader

set_option autoImplicit false

namespace PromptTemplate

/-! ## 1. Steps -/

/-- What a step came to. -/
structure StepResult where
  success : Bool
  component : Text
  message : Text
  details : Option (List Text)
  deriving DecidableEq, Repr

namespace StepResult

/-- A step that succeeded. -/
def passed (component message : Text) (details : Option (List Text)) : StepResult :=
  ⟨true, component, message, details⟩

/-- A step that failed. -/
def failed (component message : Text) (details : Option (List Text)) : StepResult :=
  ⟨false, component, message, details⟩

/-- The step as a value of the report. -/
def toJson (step : StepResult) : Json :=
  .obj ([(units "success", .bool step.success), (units "component", .str step.component),
    (units "message", .str step.message)]
    ++ (step.details.map fun details => (units "details", Json.arr (details.map .str))).toList)

end StepResult

/-- Checks the settings. -/
def settingsStep (settings : Settings) : StepResult :=
  let component := units "App Configuration"
  match settings.check with
  | .error error => .failed component error.message none
  | .ok () =>
    .passed component (units "valid")
      (some [units "Environment: " ++ settings.stage, units "Log level: " ++ settings.logLevel,
        units "Default method: " ++ settings.method, units "Default count: " ++
          settings.count.toText,
        units "Wildcard directory: " ++ settings.wildcards,
        units "Seed: " ++ (settings.seed.map Number.toText).getD (units "none")])

/-- The lines that show a grammar. -/
def Grammar.summary (g : Grammar) : List Text :=
  [units "Variants: " ++ g.variantStart ++ units " ... " ++ g.variantEnd,
    units "Variables: " ++ g.variableStart ++ units " ... " ++ g.variableEnd,
    units "Wraps: " ++ g.wrapStart ++ units " ... " ++ g.wrapEnd,
    units "Wildcards: " ++ g.wildcardWrap ++ units "name" ++ g.wildcardWrap]

/-- The text of the file that a written path means. -/
def FileTree.readResolved (files : FileTree) (path : Text) : Option (Except FileFault Text) :=
  (files.at? (files.resolve path)).map FileTree.textOf

/-- Checks a grammar in a file, and gives it. Without a file it is the standard one. -/
def grammarStep (files : FileTree) (path : Option Text) : StepResult × Option Grammar :=
  let component := units "Grammar Configuration"
  match path with
  | none => (.passed component (units "using default delimiters") none, some .standard)
  | some path =>
    match files.readResolved path with
    | none =>
      (.failed component (units "File not found: " ++ Path.toText (files.resolve path)) none, none)
    | some (.error fault) =>
      -- a file that can not be read is reported like one that does not parse
      (.failed component (units "Invalid JSON: " ++ fault.message .read) none, none)
    | some (.ok source) =>
      match Json.read source with
      | .error error =>
        (.failed component (units "Invalid JSON: " ++ error.message source) none, none)
      | .ok value =>
        match Grammar.validate (.ofJson value) with
        | .ok g => (.passed component (units "valid") (some g.summary), some g)
        | .error faults =>
          (.failed component (Text.ofNat faults.length ++ units " validation error(s)")
            (some (faults.map GrammarFault.line)), none)

/-- The faults in the values of one collection. -/
def valueFaults (g : Grammar) (name : Text) (values : List Text) : List Text :=
  values.filterMap fun value =>
    match g.parse (.template 0) value with
    | .ok _ => none
    | .error error => some (name ++ units ": \"" ++ value ++ units "\": " ++ error.message)

/-- Reads the values of all collections: how many there are, and their faults. -/
def checkCollections (files : FileTree) (g : Grammar) :
    List Text → WildcardDirectory → Except LoadError (Nat × List Text)
  | [], _ => .ok (0, [])
  | name :: names, d =>
    match d.resolve files name with
    | (.error error, _) => .error error
    | (.ok values, d) =>
      (checkCollections files g names d).map fun (count, faults) =>
        (values.length + count, valueFaults g name values ++ faults)

/-- Checks that every value of every wildcard can be read. A directory that is not
required may be missing. -/
def wildcardsStep (files : FileTree) (path : Text) (declaration : GrammarDeclaration)
    (required : Bool) :
    StepResult :=
  let component := units "Wildcards"
  if !files.has path then
    -- the directory of the settings may be missing, one that is asked for may not
    if required then
      .failed component (units "Directory not found: " ++ Path.toText (files.resolve path)) none
    else .passed component (units "no directory at " ++ path ++ units " (skipped)") none
  else
    match WildcardDirectory.ofPath files path with
    | .error error => .failed component error.message none
    | .ok d =>
      match Grammar.load declaration with
      | .error error => .failed component error.message none
      | .ok g =>
        let (names, d) := d.list files
        match checkCollections files g names d with
        | .error error => .failed component error.message none
        | .ok (count, []) =>
          .passed component
            (Text.ofNat names.length ++ units " collection(s), " ++ Text.ofNat count ++
              units " value(s)")
            (some names)
        | .ok (_, faults) =>
          .failed component
            (Text.ofNat faults.length ++ units " value(s) failed to parse") (some faults)

/-- Checks that a template in a file can be read. -/
def templateStep (files : FileTree) (path : Text) (declaration : GrammarDeclaration) : StepResult :=
  let component := units "Template " ++ path
  match files.readResolved path with
  | none => .failed component (units "File not found: " ++ Path.toText (files.resolve path)) none
  | some source =>
    match Grammar.load declaration with
    | .error error => .failed component error.message none
    | .ok g =>
      match source with
      | .error fault => .failed component (fault.message .read) none
      | .ok source =>
        match g.parse (.template 0) source with
        | .error error => .failed component error.message none
        | .ok tree => .passed component (units "parses") (some [tree.describe])

/-! ## 2. The report -/

/-- How many steps passed. -/
def passedCount (steps : List StepResult) : Nat := (steps.filter (·.success)).length

/-- How many steps failed. -/
def failedCount (steps : List StepResult) : Nat := (steps.filter fun step => !step.success).length

/-- The counts of a report. -/
def summaryJson (steps : List StepResult) : Json :=
  .obj [(units "stepsPassed", .num (.ofNat (passedCount steps))),
    (units "stepsFailed", .num (.ofNat (failedCount steps))),
    (units "stepsTotal", .num (.ofNat steps.length))]

/-- The whole report. -/
def reportJson (time : Text) (steps : List StepResult) : Json :=
  .obj [(units "timestamp", .str time), (units "steps", .arr (steps.map StepResult.toJson)),
    (units "summary", summaryJson steps)]

/-! ## 3. The program -/

/-- The options of the program. -/
def validateSpecs : List OptionSpec :=
  [⟨units "grammar", none, true⟩, ⟨units "wildcards", none, true⟩, ⟨units "verbose", none, false⟩,
    ⟨units "json", none, false⟩, ⟨units "strict", none, false⟩,
    ⟨units "help", some (unit 'h'), false⟩]

/-- The help text of the program. -/
def validateHelp : Text :=
  units "\nUsage: validate-config [options] [template files...]\n\nOptions:\n"
    ++ units "  --grammar <path>    Grammar configuration JSON (default: built-in delimiters)\n"
    ++ units "  --wildcards <dir>   Wildcard directory (default: PROMPTS_WILDCARD_DIR)\n"
    ++ units "  --verbose           Show detailed output\n"
    ++ units "  --json              Output entire report as JSON (for CI parsing)\n"
    ++ units "  --strict            Stop at the first failed step\n"
    ++ units "  -h, --help          Show this help message\n"

/-- The steps up to the first failed one, which is the last. -/
def untilFailure : List StepResult → List StepResult
  | [] => []
  | step :: steps => if step.success then step :: untilFailure steps else [step]

/-- The steps that the arguments ask for. Without a grammar there are no more. -/
def validateSteps (a : Arguments) (place : Surroundings) : List StepResult :=
  let (step, grammar) := grammarStep place.files (a.value? (units "grammar"))
  let later :=
    match grammar with
    | none => []
    | some g =>
      -- values and templates are read with the grammar of this step
      let declaration : GrammarDeclaration :=
        .members (g.fields.map fun field => (field.1, some (.str field.2)))
      let given := a.value? (units "wildcards")
      wildcardsStep place.files (given.getD place.settings.wildcards) declaration given.isSome
        :: a.positionals.map fun path => templateStep place.files path declaration
  -- no step changes anything, so cutting the list off is the same as stopping there
  let steps := settingsStep place.settings :: step :: later
  if a.has (units "strict") then untilFailure steps else steps

/-- A line of sixty equal units. -/
def ruler (u : CodeUnit) : Text := List.replicate 60 u

/-- The lines before the steps. -/
def headerLines (color : Bool) : List Text :=
  let bold := colored color (units "1")
  [[], bold (ruler 0x2550), bold (units " Prompt Configuration Validation"),
    bold (ruler 0x2550), []]

/-- The lines of a step. The details of one that succeeded are shown when asked for. -/
def stepLines (color verbose : Bool) (step : StepResult) : List Text :=
  let mark : Text := if step.success then colored color (units "32") [0x2713]
    else colored color (units "31") [0x2717]
  let head :=
    mark ++ units " " ++ colored color (units "1") step.component ++ units ": " ++ step.message
  let details := step.details.getD []
  let shown :=
    if step.success then
      if verbose then
        details.map fun line => units "  " ++ colored color (units "2") [0x2022] ++
          units " " ++ line
      else []
    else details.map fun line => units "    " ++ colored color (units "31") [0x2022] ++
      units " " ++ line
  head :: shown ++ [[]]

/-- The lines after the steps. -/
def footerLines (color : Bool) (steps : List StepResult) : List Text :=
  let passed := Text.ofNat (passedCount steps)
  let verdict :=
    if failedCount steps = 0 then
      colored color (units "32")
        (0x2713 :: units " All validations passed (" ++ passed ++ units "/" ++ passed ++ units ")")
    else
      colored color (units "31")
        (0x2717 :: units " Validation failed: " ++ Text.ofNat (failedCount steps) ++
          units " error(s)")
  [[], ruler 0x2500, verdict, ruler 0x2500, []]

/-- Runs the program. -/
def runValidate (arguments : List Text) (place : Surroundings) (time : Text) : Completion :=
  match Arguments.read validateSpecs arguments with
  | .error fault => ⟨1, [], [fault.message], []⟩
  | .ok a =>
    if a.has (units "help") then ⟨0, [validateHelp], [], []⟩
    else
      let steps := validateSteps a place
      let lines :=
        if a.has (units "json") then [Json.pretty (reportJson time steps)]
        else
          headerLines place.color ++ steps.flatMap (stepLines place.color (a.has (units "verbose")))
            ++ footerLines place.color steps
      ⟨if failedCount steps = 0 then 0 else 1, lines, [], []⟩

end PromptTemplate
