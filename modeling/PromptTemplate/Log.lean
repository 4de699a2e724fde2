/-
`Log.lean` -- entries of a log, and where they go.
-/
import PromptTemplate.Expansion.Session
import PromptTemplate.Files.Tree
import PromptTemplate.Json
import PromptTemplate.Text.Uppercase

set_option autoImplicit false

namespace PromptTemplate

/-! ## 1. Entries -/

/-- How grave an entry is. -/
inductive LogLevel
  | debug
  | info
  | warn
  | error
  deriving DecidableEq, Repr

namespace LogLevel

/-- All levels, the slightest first. -/
def all : List LogLevel := [debug, info, warn, error]

/-- The name of a level. -/
def name : LogLevel → Text
  | debug => units "debug"
  | info => units "info"
  | warn => units "warn"
  | error => units "error"

/-- The level with this name. -/
def ofName? (t : Text) : Option LogLevel := all.find? fun level => level.name = t

/-- The rank of a level. -/
def rank : LogLevel → Nat
  | debug => 0
  | info => 1
  | warn => 2
  | error => 3

/-- The names that are no levels and are let through all the same. -/
def inherited : List Text :=
  [units "constructor", units "__defineGetter__", units "__defineSetter__", units "hasOwnProperty",
    units "__lookupGetter__", units "__lookupSetter__", units "isPrototypeOf",
      units "propertyIsEnumerable",
    units "toString", units "valueOf", units "__proto__", units "toLocaleString"]

/-- Whether a name is taken for that of a level. -/
def isName (t : Text) : Bool := (ofName? t).isSome || inherited.contains t

end LogLevel

/-- An entry: when, how grave, which part of the program, what, and with which
values. -/
def logEntry (time level scope message : Text) (context : Option Json) : Text :=
  let head :=
    units "[" ++ time ++ units "] [" ++ Text.padEnd 5 level.capitals ++ units "] [" ++ scope ++
      units "] " ++ message
  match context with
  | some (.obj (member :: members)) => head ++ units " " ++ Json.compact (.obj (member :: members))
  | some (.arr (item :: items)) => head ++ units " " ++ Json.compact (.arr (item :: items))
  | _ => head

/-! ## 2. Reports of a run -/

/-- The message of a report. -/
def Notice.message : Notice → Text
  | builtParser _ => units "Built parser"
  | emptyWildcard _ _ => units "Wildcard resolved to no values"
  | generated _ _ _ => units "Generated prompts"

/-- The values of a report. -/
def Notice.context : Notice → Json
  | builtParser key => .obj [(units "grammar", .str key)]
  | emptyWildcard wildcard method =>
    .obj [(units "wildcard", .str wildcard), (units "method", .str method.name)]
  | generated method requested count =>
    .obj [(units "method", .str method.name), (units "requested", .num (.ofNat requested)),
      (units "generated", .num (.ofNat count))]

/-! ## 3. Logs -/

/-- What a log writes and where. The level is a name; one that is unknown lets
everything through. -/
structure LogOptions where
  level : Text
  scope : Text
  directory : Text
  fileName : Text
  onConsole : Bool
  inFile : Bool

/-- The options of a log for which none are given. -/
def LogOptions.standard : LogOptions where
  level := units "info"
  scope := units "prompts"
  directory := units "output/logs"
  fileName := units "variant-prompts.log"
  onConsole := true
  inFile := false

namespace LogOptions

/-- Whether an entry of a level is written. -/
def admits (options : LogOptions) (level : LogLevel) : Bool :=
  match LogLevel.ofName? options.level with
  | some least => least.rank ≤ level.rank
  | none => true

/-- Where the entries of a file go. -/
def filePath (options : LogOptions) : Text := Path.join options.directory options.fileName

end LogOptions

/-- A log with the lines that it wrote to the console, the latest first, and the
files. -/
structure Log where
  options : LogOptions
  lines : List Text
  files : FileTree

namespace Log

/-- A new log. The directory of its file is made when it is missing. -/
def start (options : LogOptions) (files : FileTree) : Except FileFault Log :=
  if options.inFile && !files.has options.directory then
    (files.makeDirectories options.directory).map fun files => ⟨options, [], files⟩
  else .ok ⟨options, [], files⟩

/-- Writes to the file. When that fails, the reason goes to the console. -/
def toFile (log : Log) (entry : Text) : Log :=
  if log.options.inFile then
    match log.files.append log.options.filePath (Utf8.encode (entry ++ [10])) with
    | .ok files => { log with files := files }
    | .error fault =>
      { log with
        lines := (units "Failed to write to log file: Error: " ++
          fault.message (.openFile log.options.filePath))
          :: log.lines }
  else log

/-- Writes an entry. -/
def write (log : Log) (time : Text) (level : LogLevel) (message : Text) (context : Option Json) :
    Log :=
  if log.options.admits level then
    let entry := logEntry time level.name log.options.scope message context
    (if log.options.onConsole then { log with lines := entry :: log.lines } else log).toFile entry
  else log

end Log

end PromptTemplate
