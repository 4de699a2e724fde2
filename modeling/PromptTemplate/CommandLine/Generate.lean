/-
`Generate.lean` -- the program that generates prompts.

It reads its arguments, makes a generator and prints prompts, or the tree of the
template. Whatever goes wrong, nothing was printed before: the output of a run is
either complete or empty.
-/
import PromptTemplate.Command.Describe
import PromptTemplate.CommandLine.Arguments
import PromptTemplate.Generation.Generator
import PromptTemplate.Log
import PromptTemplate.Number.Binary64
import PromptTemplate.Settings
import PromptTemplate.Wildcard.Collections
import PromptTemplate.Wildcard.Directory

set_option autoImplicit false

namespace PromptTemplate

/-- What the arguments of the program ask for. -/
structure GenerateOptions where
  template : Text
  method : Sampling
  count : Number
  seed : Option Number
  wildcards : Option Text
  tree : Bool
  json : Bool
  color : Bool
  help : Bool

/-- Arguments that ask for nothing the program can do. -/
inductive UsageError
  | arguments (fault : ArgumentFault)
  | method (given : Text)
  | integer (option given : Text)
  | negativeCount (given : Number)
  | twoTemplates
  | templateMissing (path : Text)
  | unreadable (fault : FileFault)
  | noTemplate
  deriving DecidableEq, Repr

/-- The error in words. -/
def UsageError.message : UsageError → Text
  | arguments fault => fault.message
  | method given =>
    units "Invalid method: " ++ given ++ units ". Must be " ++ Sampling.names ++ units "."
  | integer option given => units "--" ++ option ++ units " must be an integer, got: " ++ given
  | negativeCount given => units "--count must be zero or more, got: " ++ given.toText
  | twoTemplates => units "Give the template either inline or with --file, not both"
  | templateMissing path => units "Template file not found: " ++ path
  | unreadable fault => fault.message .read
  | noTemplate => units "No template given. Pass it as an argument or with --file."

namespace GenerateOptions

/-! ## 1. Arguments -/

/-- The options of the program. -/
def specs : List OptionSpec :=
  [⟨units "file", none, true⟩, ⟨units "method", none, true⟩, ⟨units "count", none, true⟩,
    ⟨units "seed", none, true⟩, ⟨units "wildcards", none, true⟩, ⟨units "ast", none, false⟩,
    ⟨units "json", none, false⟩, ⟨units "no-color", none, false⟩,
    ⟨units "help", some (unit 'h'), false⟩]

/-- The whole number that an option is given. -/
def integerOf (option given : Text) : Except UsageError Number :=
  let number := Number.ofText given
  if (Text.trim given).isEmpty || number.toInt?.isNone then .error (.integer option given)
  else .ok number

/-- The template: in a file, or all positional arguments with blanks between. -/
def templateOf (files : FileTree) (a : Arguments) : Except UsageError Text :=
  match a.value? (units "file") with
  | some path =>
    if !a.positionals.isEmpty then .error .twoTemplates
    else if !files.has path then .error (.templateMissing path)
    else (files.read path).mapError .unreadable
  | none =>
    if !a.positionals.isEmpty then .ok (Text.join [32] a.positionals)
    else if a.has (units "help") then .ok []
    else .error .noTemplate

/-- Reads the arguments. What they leave open is as the settings say. -/
def read (files : FileTree) (settings : Settings) (arguments : List Text) :
    Except UsageError GenerateOptions := do
  let a ← (Arguments.read specs arguments).mapError .arguments
  let methodName := (a.value? (units "method")).getD settings.method
  -- the checks come in this order, and the first that fails is the one reported
  let method ←
    match Sampling.ofName? methodName with
    | some method => .ok method
    | none => .error (.method methodName)
  let count ←
    match a.value? (units "count") with
    | some given => integerOf (units "count") given
    | none => .ok settings.count
  -- a count of zero is allowed and prints nothing
  if count.lt 0 then .error (.negativeCount count)
  else
    let seed ←
      match a.value? (units "seed") with
      | some given => (integerOf (units "seed") given).map some
      | none => .ok settings.seed
    let template ← templateOf files a
    return {
      template := template
      method := method
      count := count
      seed := seed
      wildcards := a.value? (units "wildcards")
      tree := a.has (units "ast")
      json := a.has (units "json")
      color := !a.has (units "no-color")
      help := a.has (units "help") }

end GenerateOptions

/-! ## 2. A run -/

/-- Where the program runs: its files, its settings, what it draws from when no seed
is given, and whether its output may be colored. -/
structure Surroundings where
  files : FileTree
  settings : Settings
  unseeded : Source
  color : Bool

/-- What a run of a program comes to. -/
structure Completion where
  code : Nat
  out : List Text
  err : List Text
  notices : List Notice

/-- The help text of the program. -/
def generateHelp : Text :=
  units "\nUsage: variant-prompts [template] [options]\n\nOptions:\n"
    ++ units "  --file <path>        Read the template from a file\n"
    ++ units "  --method <method>    random | combinatorial | cyclical\n"
    ++ units "  --count <n>          Number of prompts to generate\n"
    ++ units "  --seed <n>           Seed for random sampling\n"
    ++ units "  --wildcards <dir>    Directory of wildcard .txt files\n"
    ++ units "  --ast                Print the parsed template instead of generating\n"
    ++ units "  --json               Output as JSON\n"
    ++ units "  --no-color           Disable ANSI colors\n"
    ++ units
      "  -h, --help           Show this help message\n\nExit codes:\n  0 - Success\n  1 - Error\n"

/-- A text between two codes of the terminal, if it is to be colored. -/
def colored (color : Bool) (code t : Text) : Text :=
  -- 27 and 91 begin a code of the terminal
  if color then [27, 91] ++ code ++ units "m" ++ t ++ [27, 91] ++ units "0m" else t

/-- Why a run with readable arguments prints nothing. -/
inductive RunError
  | load (error : LoadError)
  | configuration (error : ConfigurationError)
  | generation (error : GenerationError)

/-- The lines of an error. A fault in a template is shown with its place. -/
def RunError.lines (template : Text) : RunError → List Text
  | load error => [units "Error: " ++ error.message]
  | configuration error => [error.report]
  | generation (.configuration error) => [error.report]
  | generation (.template (.malformed error)) => error.report template
  | generation (.walk (.candidate (.malformed error))) => error.report template
  | generation error => [units "Error: " ++ error.message]

namespace GenerateOptions

/-- The wildcards of a run: those of the directory that is asked for, else those of
the settings when there is such a directory. -/
def answers (options : GenerateOptions) (place : Surroundings) :
    Except LoadError (Text → Except LoadError (List Text)) :=
  match options.wildcards with
  | some path =>
    (WildcardDirectory.ofPath place.files path).map (WildcardDirectory.answer place.files)
  | none =>
    -- the default directory may be missing, one that is asked for may not
    if place.files.has place.settings.wildcards then
      (WildcardDirectory.ofPath place.files place.settings.wildcards).map
        (WildcardDirectory.answer place.files)
    else .ok (Collections.answer ⟨[]⟩)

/-- What a run draws from. -/
def source (options : GenerateOptions) (place : Surroundings) : Source :=
  match options.seed with
  | some seed => Source.seeded seed.toUInt32
  | none => place.unseeded

/-- The lines that show a tree. -/
def treeLines (options : GenerateOptions) (tree : Command) : List Text :=
  if options.json then [Json.pretty (.obj [(units "ast", .str tree.describe)])] else [tree.describe]

/-- The lines that show prompts. -/
def promptLines (options : GenerateOptions) (prompts : List Text) : List Text :=
  if options.json then
    [Json.pretty (.obj [(units "method", .str options.method.name),
      (units "count", .num (.ofNat prompts.length)),
      (units "prompts", .arr (prompts.map .str))])]
  else prompts

/-- The lines that a run prints, and what it has to report. -/
def produce (options : GenerateOptions) (place : Surroundings) :
    Except RunError (List Text) × List Notice :=
  match options.answers place with
  | .error error => (.error (.load error), [])
  | .ok answers =>
    match Generator.create .absent options.method.name 0 with
    | .error error => (.error (.configuration error), [])
    | .ok generator =>
      -- the template is read first, also when nothing is to be generated
      let (tree, generator) := generator.parse options.template
      match tree with
      | .error error => (.error (.generation (.template error)), generator.session.notices.reverse)
      | .ok tree =>
        if options.tree then (.ok (options.treeLines tree), generator.session.notices.reverse)
        else
          let env : Environment :=
            ⟨generator.grammar, options.source place, Binary64.round, .automatic, answers,
              defaultDepthLimit⟩
          let (result, generator) := generator.generateTree env tree options.count none
          ((result.mapError .generation).map options.promptLines, generator.session.notices.reverse)

end GenerateOptions

/-- Runs the program. -/
def runGenerate (arguments : List Text) (place : Surroundings) : Completion :=
  match GenerateOptions.read place.files place.settings arguments with
  | .error error =>
    ⟨1, [], [units "Error: " ++ error.message, units "Run with --help for usage."], []⟩
  | .ok options =>
    if options.help then ⟨0, [generateHelp], [], []⟩
    else
      match options.produce place with
      | (.ok lines, notices) => ⟨0, lines, [], notices⟩
      | (.error error, notices) =>
        ⟨1, [], (error.lines options.template).map (colored (options.color && place.color)
          (units "31")), notices⟩

/-- The options of the program's log. -/
def generateLogOptions (settings : Settings) : LogOptions :=
  let level := if settings.debug then LogLevel.debug.name else settings.logLevel
  { LogOptions.standard with
    level := if LogLevel.isName level then level else LogLevel.info.name
    scope := units "generate" }

end PromptTemplate
