/-
`Program.lean` -- the programs as processes of their own.

A process reads its settings from its variables and from the file of variables in
its directory. What it logs goes to the error output before its own errors.
-/
import PromptTemplate.CommandLine.Validate

set_option autoImplicit false

namespace PromptTemplate

/-- The programs. -/
inductive Program
  | generate
  | validate
  deriving DecidableEq, Repr

/-- What a process is started with. -/
structure ProcessStart where
  arguments : List Text
  vars : ProcessVariables
  files : FileTree
  time : Text
  unseeded : Source
  terminal : Bool
  /-- What a text assigns to variables, the latest first. -/
  assignments : Text → ProcessVariables

/-- What a process leaves: its exit code and its two outputs. -/
structure ProcessEnd where
  code : Nat
  output : Text
  errors : Text
  deriving DecidableEq, Repr

/-- The entries that a run of the generating program logs. -/
def generateLogLines (settings : Settings) (files : FileTree) (time : Text)
    (notices : List Notice) : List Text :=
  (notices.foldl (fun log notice => Log.write log time .debug notice.message (some notice.context))
    ⟨generateLogOptions settings, [], files⟩).lines.reverse

/-- Lines as they are printed. -/
def printed (lines : List Text) : Text := lines.flatMap fun line => line ++ [10]

/-- Whether output to the terminal is colored: unless a variable forbids it. -/
def mayColor (terminal : Bool) (vars : ProcessVariables) : Bool :=
  terminal && (vars.value? (units "NO_COLOR")).isNone

/-- Runs a program as a process. -/
def Program.run (program : Program) (start : ProcessStart) : ProcessEnd :=
  -- what the process itself sets is kept before what the file says
  let vars := start.vars.withFile start.assignments (start.files.read (units ".env")).toOption
  match Settings.load vars with
  -- settings are read before the arguments, so their fault is all that is printed
  | .error error => ⟨1, [], printed [error.message]⟩
  | .ok settings =>
    let place : Surroundings :=
      ⟨start.files, settings, start.unseeded, mayColor start.terminal vars⟩
    match program with
    | .generate =>
      let completion := runGenerate start.arguments place
      ⟨completion.code, printed completion.out,
        printed (generateLogLines settings start.files start.time completion.notices ++
          completion.err)⟩
    | .validate =>
      let completion := runValidate start.arguments place start.time
      ⟨completion.code, printed completion.out, printed completion.err⟩

end PromptTemplate
