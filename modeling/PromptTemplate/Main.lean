/-
`Main.lean` -- the programs on a command line.

The first argument names the program. Everything that the program may look at is
read into a tree of files before it runs: the file of variables, the directory of
wildcards, and what the arguments name.
-/
import PromptTemplate.CommandLine.Program
import PromptTemplate.Log.Instant
import PromptTemplate.Settings.Assignments

set_option autoImplicit false

namespace PromptTemplate

/-- The program with this name. -/
def Program.ofName? (name : String) : Option Program :=
  match name with
  | "generate" => some .generate
  | "validate-config" => some .validate
  | _ => none

/-- The names of the variables that the programs read. -/
def variableNames : List String :=
  ["NODE_ENV", "DEBUG", "LOG_LEVEL", "PROMPTS_DEFAULT_METHOD", "PROMPTS_DEFAULT_COUNT",
    "PROMPTS_WILDCARD_DIR",
    "PROMPTS_SEED", "NO_COLOR"]

/-- The variables of this process that the programs read. -/
def readVariables : IO ProcessVariables :=
  variableNames.filterMapM fun name => do
    return (← IO.getEnv name).map fun value => (units name, units value)

/-- The bytes of a file as a list. -/
def bytesOf (contents : ByteArray) : Bytes := contents.toList

/-- Reads what is at a written path into the tree, a directory with all that is below
it. -/
partial def readInto (tree : FileTree) (written : String) : IO FileTree := do
  let place := (← IO.currentDir) / written
  if ← place.isDir then
    let tree := (tree.makeDirectories (units written)).toOption.getD tree
    (← place.readDir).foldlM (fun tree entry => readInto tree s!"{written}/{entry.fileName}") tree
  else if ← place.pathExists then
    let contents ← IO.FS.readBinFile place
    return (tree.write (units written) (bytesOf contents)).toOption.getD tree
  else return tree

/-- The paths that an argument can name: itself, or what follows its equals sign. -/
def pathsOf (argument : String) : List String :=
  match Text.cut [61] (units argument) with
  | some (_, value) => [argument, Text.toString value]
  | none => [argument]

/-- The files that a program can look at. -/
def readFiles (vars : ProcessVariables) (arguments : List String) : IO FileTree := do
  let current := Path.resolve [] (units (← IO.currentDir).toString)
  let tree ← readInto (.empty current) ".env"
  let all := vars.withFile Assignments.read (tree.read (units ".env")).toOption
  let wildcards := Text.toString (all.text (units "PROMPTS_WILDCARD_DIR") (units "wildcards"))
  ((wildcards :: arguments.flatMap pathsOf).filter fun path => !path.isEmpty).foldlM readInto tree

/-- The time that the file system gives a new file. -/
def readClock : IO Instant := do
  let (_, path) ← IO.FS.createTempFile
  let modified := (← path.metadata).modified
  IO.FS.removeFile path
  return modified.sec * 1000 + modified.nsec.toNat / 1000000

/-- What a process is started with. -/
def readStart (arguments : List String) : IO ProcessStart := do
  let vars ← readVariables
  let files ← readFiles vars arguments
  let time ← readClock
  let seed ← IO.rand 0 4294967295
  let terminal ← (← IO.getStdout).isTty
  return ⟨arguments.map units, vars, files, time.toText, Source.seeded seed.toUInt32, terminal,
    Assignments.read⟩

end PromptTemplate

open PromptTemplate in
/-- Runs the program that the first argument names. -/
def main (arguments : List String) : IO UInt32 := do
  match arguments with
  | name :: rest =>
    match Program.ofName? name with
    | some program =>
      let finish := program.run (← readStart rest)
      IO.print (Text.toString finish.output)
      IO.eprint (Text.toString finish.errors)
      return finish.code.toUInt32
    | none => do
      IO.eprintln s!"Unknown program: {name}"
      return 1
  | [] => do
    IO.eprintln "Usage: (generate | validate-config) [arguments]"
    return 1
