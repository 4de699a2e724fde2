/-
`AllOrNothing.lean` -- a run of the generating program prints all that is asked for, or nothing.

`Line` is one call that writes a line, and `account` is the program as these calls come one after
another: what was written before something goes wrong stays written, and prompts are printed one
call each. It comes to what `runGenerate` comes to (`account_eq`), which holds because whatever can
go wrong does so before the first line is printed. `Stops` lists the points at which a run can go
wrong, up to each single walk over the tree, and `Shows` what a run can print. Every run is one of
the two (`runGenerate_all_or_nothing`); a walk that fails takes the prompts of all walks before it
with it.
-/
import PromptTemplate.CommandLine.Generate
import PromptTemplate.Proofs.Generation.Rotations
import PromptTemplate.Proofs.Results

set_option autoImplicit false

namespace PromptTemplate

/-! ## 1. Rendering several times -/

section Walks

variable {env : Environment} {command : Command} {method : Sampling} {s : Session}
  {error : WalkError}

/-- The walks before one succeed, and this one fails. -/
def FailsAt (env : Environment) (command : Command) (method : Sampling) (s : Session) (walk : Nat)
    (error : WalkError) : Prop :=
  ∃ texts between, renderRepeatedly env command method walk s = (.ok texts, between) ∧
    (renderOnce env command method [] ⟨.root [], between⟩).1 = .error error

theorem failsAt_zero : FailsAt env command method s 0 error ↔
    (renderOnce env command method [] ⟨.root [], s⟩).1 = .error error := by
  constructor
  · rintro ⟨texts, between, hbefore, hfails⟩
    cases hbefore
    exact hfails
  · intro hfails
    exact ⟨[], s, rfl, hfails⟩

/-- Behind a first walk that succeeds, a later walk is one walk earlier. -/
theorem failsAt_succ {first : Text} {w : Walking} {walk : Nat}
    (hfirst : renderOnce env command method [] ⟨.root [], s⟩ = (.ok first, w)) :
    FailsAt env command method s (walk + 1) error ↔
      FailsAt env command method w.session walk error := by
  constructor
  · rintro ⟨texts, between, hbefore, hfails⟩
    obtain ⟨_, _, rest, hwalk, hrest, -⟩ := exists_of_renderRepeatedly hbefore
    rw [hfirst] at hwalk
    cases hwalk
    exact ⟨rest, between, hrest, hfails⟩
  · rintro ⟨texts, between, hbefore, hfails⟩
    refine ⟨first :: texts, between, ?_, hfails⟩
    simp only [renderRepeatedly, hfirst, hbefore]

/-- Behind a first walk that fails there are no more walks. -/
theorem not_failsAt_succ {fault : WalkError} {w : Walking} {walk : Nat}
    (hfirst : renderOnce env command method [] ⟨.root [], s⟩ = (.error fault, w)) :
    ¬FailsAt env command method s (walk + 1) error := by
  rintro ⟨texts, between, hbefore, -⟩
  obtain ⟨_, _, _, hwalk, -⟩ := exists_of_renderRepeatedly hbefore
  rw [hfirst] at hwalk
  cases hwalk

/-- **Rendering several times fails with the first walk that fails**, be it the last. -/
theorem renderRepeatedly_error_iff {count : Nat} :
    (renderRepeatedly env command method count s).1 = .error error ↔
      ∃ walk < count, FailsAt env command method s walk error := by
  induction count generalizing s with
  | zero =>
    constructor
    · intro h
      cases h
    · rintro ⟨walk, hwalk, -⟩
      omega
  | succ count ih =>
    rw [Nat.exists_lt_succ_left, failsAt_zero]
    -- the first walk that fails is the last one; behind one that succeeds
    -- the others go on as before
    rcases hfirst : renderOnce env command method [] ⟨.root [], s⟩ with ⟨fault | first, w⟩
    · have hnone : ¬∃ walk < count, FailsAt env command method s (walk + 1) error := by
        rintro ⟨walk, -, hfails⟩
        exact not_failsAt_succ hfirst hfails
      rw [or_iff_left hnone, renderRepeatedly, hfirst]
      simp only [Except.error.injEq]
    · have hothers : (renderRepeatedly env command method (count + 1) s).1 = .error error ↔
          (renderRepeatedly env command method count w.session).1 = .error error := by
        simp only [renderRepeatedly, hfirst]
        rcases renderRepeatedly env command method count w.session
          with ⟨fault | rest, after⟩ <;> simp
      have hfine : ¬(Except.ok first, w).1 = .error error := by
        intro h
        cases h
      simp only [hothers, ih, or_iff_right hfine, failsAt_succ hfirst]

/-- The prompts of a tree fail with a walk, or with the enumeration; nothing fails where no prompt
is asked for. -/
theorem Command.prompts_error_iff {count : Nat} :
    (command.prompts env method count s).1 = .error error ↔
      (method ≠ .combinatorial ∧ ∃ walk < count, FailsAt env command method s walk error) ∨
        (method = .combinatorial ∧ count ≠ 0 ∧
          (enumerateDistinct env command (.root []) (some count) s).1 = .error error) := by
  unfold Command.prompts
  by_cases hzero : count = 0
  · subst hzero
    -- the count is nothing or something: for none at all nothing is rendered or enumerated
    rw [if_pos rfl]
    constructor
    · intro h
      cases h
    · rintro (⟨-, walk, hwalk, -⟩ | ⟨-, hsome, -⟩)
      · omega
      · exact absurd rfl hsome
  · rw [if_neg hzero]
    by_cases hall : method = .combinatorial
    · simp only [ne_eq, hall, not_true_eq_false, false_and, false_or, true_and, hzero,
        not_false_eq_true]
      cases enumerateDistinct env command (.root []) (some count) s with
      | mk result after => cases result <;> simp
    · simp only [ne_eq, hall, not_false_eq_true, true_and, false_and, or_false,
        ← renderRepeatedly_error_iff]
      cases renderRepeatedly env command method count s with
      | mk result after => cases result <;> simp

end Walks

/-! ## 2. What a run stops at and what it shows -/

namespace Generating

/-- What a run renders with: the standard grammar, a source and answers for wildcards. -/
def environment (options : GenerateOptions) (place : Surroundings)
    (answers : Text → Except LoadError (List Text)) : Environment :=
  ⟨.standard, options.source place, Binary64.round, .automatic, answers, defaultDepthLimit⟩

/-- The session of a run before its template is read. -/
def freshSession : Session :=
  { Session.fresh 0 with notices := [.builtParser Grammar.standard.key] }

/-- The session of a run before the first walk. The template was read under the number one. -/
def readSession : Session := { freshSession with numbered := 2 }

/-- The generator that a run makes. -/
def freshGenerator (options : GenerateOptions) : Generator :=
  ⟨.absent, .standard, options.method.name, [], freshSession⟩

/-- A run gets to its template: the arguments can be read and do not ask for help, and there is
somebody to ask for wildcards. -/
structure Starts (arguments : List Text) (place : Surroundings) (options : GenerateOptions)
    (answers : Text → Except LoadError (List Text)) : Prop where
  read : GenerateOptions.read place.files place.settings arguments = .ok options
  help : options.help = false
  wildcards : options.answers place = .ok answers

/-- A run gets to its prompts: the template can be read, and its tree is not what is asked for. -/
structure Renders (arguments : List Text) (place : Surroundings) (options : GenerateOptions)
    (env : Environment) (tree : Command) : Prop where
  starts : ∃ answers, Starts arguments place options answers ∧
    env = environment options place answers
  parsed : Grammar.standard.parse (.template 1) options.template = .ok tree
  asked : options.tree = false

/-- Where a run can go wrong: at its arguments, the file of the template included, at the directory
of wildcards, at the template, at the count, at one of the walks, or at the enumeration. -/
inductive Stops (arguments : List Text) (place : Surroundings) : Prop
  | arguments {error : UsageError}
      (h : GenerateOptions.read place.files place.settings arguments = .error error)
  | wildcards {options : GenerateOptions} {error : LoadError}
      (read : GenerateOptions.read place.files place.settings arguments = .ok options)
      (help : options.help = false) (h : options.answers place = .error error)
  | template {options : GenerateOptions} {answers : Text → Except LoadError (List Text)}
      {error : ParseError}
      (starts : Starts arguments place options answers)
      (h : Grammar.standard.parse (.template 1) options.template = .error error)
  | count {options : GenerateOptions} {env : Environment} {tree : Command}
      (renders : Renders arguments place options env tree) (h : options.count.toNat? = none)
  | walk {options : GenerateOptions} {env : Environment} {tree : Command} {count walk : Nat}
      {error : WalkError} (renders : Renders arguments place options env tree)
      (counted : options.count.toNat? = some count)
      (method : options.method ≠ .combinatorial) (among : walk < count)
      (h : FailsAt env tree options.method readSession walk error)
  | enumeration {options : GenerateOptions} {env : Environment} {tree : Command} {count : Nat}
      {error : WalkError} (renders : Renders arguments place options env tree)
      (counted : options.count.toNat? = some count) (method : options.method = .combinatorial)
      (several : count ≠ 0)
      (h : (enumerateDistinct env tree (.root []) (some count) readSession).1 = .error error)

/-- What the generator of a run comes back with when it is called for the prompts of the template.
-/
def generated (options : GenerateOptions) (env : Environment) :
    Except GenerationError (List Text) :=
  ((freshGenerator options).generate env (.template options.template) options.count none).1

/-- What a run can print: the help text, the tree on a line or in a document, or the prompts that
were generated, one after another or in a document. -/
inductive Shows (arguments : List Text) (place : Surroundings) : List Text → Prop
  | help {options : GenerateOptions}
      (read : GenerateOptions.read place.files place.settings arguments = .ok options)
      (help : options.help = true) : Shows arguments place [generateHelp]
  | tree {options : GenerateOptions} {answers : Text → Except LoadError (List Text)}
      {tree : Command}
      (starts : Starts arguments place options answers)
      (parsed : Grammar.standard.parse (.template 1) options.template = .ok tree)
      (asked : options.tree = true) (plain : options.json = false) :
    Shows arguments place [tree.describe]
  | treeDocument {options : GenerateOptions} {answers : Text → Except LoadError (List Text)}
      {tree : Command}
      (starts : Starts arguments place options answers)
      (parsed : Grammar.standard.parse (.template 1) options.template = .ok tree)
      (asked : options.tree = true) (json : options.json = true) :
    Shows arguments place [Json.pretty (.obj [(units "ast", .str tree.describe)])]
  | prompts {options : GenerateOptions} {env : Environment} {tree : Command} {prompts : List Text}
      (renders : Renders arguments place options env tree) (plain : options.json = false)
      (h : generated options env = .ok prompts) : Shows arguments place prompts
  | promptDocument {options : GenerateOptions} {env : Environment} {tree : Command}
      {prompts : List Text} (renders : Renders arguments place options env tree)
      (json : options.json = true)
      (h : generated options env = .ok prompts) :
    Shows arguments place [Json.pretty (.obj [(units "method", .str options.method.name),
      (units "count", .num (.ofNat prompts.length)), (units "prompts", .arr (prompts.map .str))])]

variable {arguments : List Text} {place : Surroundings} {options : GenerateOptions}
  {env : Environment}
  {tree : Command} {answers : Text → Except LoadError (List Text)}

theorem create_fresh (options : GenerateOptions) :
    Generator.create .absent options.method.name 0 = .ok (freshGenerator options) := rfl

/-- A new generator has kept no tree, so it reads the template. -/
theorem parse_fresh (options : GenerateOptions) (source : Text) :
    (freshGenerator options).parse source =
      match Grammar.standard.parse (.template 1) source with
      | .error error => (.error error, { freshGenerator options with session := readSession })
      | .ok tree => (.ok tree,
          { freshGenerator options with trees := [(source, tree)], session := readSession }) := by
  have hread : freshSession.parseTemplate .standard source =
      (Grammar.standard.parse (.template 1) source, readSession) := rfl
  rw [Generator.parse, freshGenerator, List.lookup_nil, hread]
  cases Grammar.standard.parse (.template 1) source <;> rfl

/-- A call for the prompts of a template that can be read: the count is looked at, then the tree. -/
theorem generateTree_fresh (options : GenerateOptions) {env : Environment}
    (henv : env.grammar = .standard) (trees : List (Text × Command)) (tree : Command) :
    (Generator.generateTree { freshGenerator options with trees := trees, session := readSession }
        env tree options.count none).1 =
      match options.count.toNat? with
      | none => .error (.count options.count)
      | some count => (tree.prompts env options.method count readSession).1.mapError .walk := by
  have hload : Grammar.load .absent = .ok .standard := rfl
  have hsame : { env with grammar := .standard } = env := by rw [← henv]
  simp only [Generator.generateTree, generate, freshGenerator, Option.getD_none,
    Sampling.ofName?_name, hload, Subject.read, hsame]
  cases options.count.toNat? <;> rfl

theorem generated_eq (henv : env.grammar = .standard)
    (hparsed : Grammar.standard.parse (.template 1) options.template = .ok tree) :
    generated options env = match options.count.toNat? with
      | none => .error (.count options.count)
      | some count => (tree.prompts env options.method count readSession).1.mapError .walk := by
  rw [generated, ← generateTree_fresh options henv [(options.template, tree)] tree]
  simp only [Generator.generate, parse_fresh, hparsed]

theorem generated_error {error : ParseError}
    (h : Grammar.standard.parse (.template 1) options.template = .error error) :
    generated options env = .error (.template error) := by
  simp only [generated, Generator.generate, parse_fresh, h]

/-- What a run prints, once there is somebody to ask for wildcards. -/
theorem produce_fst (hanswers : options.answers place = .ok answers) :
    (options.produce place).1 =
      match Grammar.standard.parse (.template 1) options.template with
      | .error error => .error (.generation (.template error))
      | .ok tree =>
        if options.tree then .ok (options.treeLines tree)
        else ((generated options (environment options place answers)).mapError .generation).map
          options.promptLines := by
  simp only [GenerateOptions.produce, hanswers, create_fresh, parse_fresh]
  cases hparsed : Grammar.standard.parse (.template 1) options.template with
  | error error => rfl
  | ok tree =>
    by_cases hasked : options.tree = true
    · simp only [if_pos hasked]
    · simp only [if_neg hasked]
      rw [generated_eq rfl hparsed,
        ← generateTree_fresh options rfl [(options.template, tree)] tree]
      rfl

/-! ## 3. Line by line -/

/-- One call that writes a line, to the output or to the errors. -/
inductive Line
  | out (text : Text)
  | err (text : Text)
  deriving DecidableEq, Repr

/-- Steps that write lines behind those that were written before. -/
abbrev Writing (α : Type) := StateM (List Line) α

def out (text : Text) : Writing Unit := modify (· ++ [.out text])

def err (text : Text) : Writing Unit := modify (· ++ [.err text])

/-- The steps of a run that does not ask for help. What was written before an error stays written.
-/
def steps (options : GenerateOptions) (place : Surroundings) :
    ExceptT RunError (StateM (List Line)) Unit := do
  let answers ← MonadExcept.ofExcept ((options.answers place).mapError .load)
  let generator ←
    MonadExcept.ofExcept ((Generator.create .absent options.method.name 0).mapError .configuration)
  if options.tree then
    let tree ← MonadExcept.ofExcept
      ((generator.parse options.template).1.mapError fun error => .generation (.template error))
    out (if options.json then Json.pretty (.obj [(units "ast", .str tree.describe)])
      else tree.describe)
  else
    let prompts ← MonadExcept.ofExcept
      ((generator.generate (environment options place answers) (.template options.template)
        options.count
        none).1.mapError .generation)
    if options.json then
      out (Json.pretty (.obj [(units "method", .str options.method.name),
        (units "count", .num (.ofNat prompts.length)), (units "prompts", .arr (prompts.map .str))]))
    else
      prompts.forM fun prompt => out prompt

/-- The program, call by call. No error gets out of it. -/
def account (arguments : List Text) (place : Surroundings) : Writing Nat :=
  match GenerateOptions.read place.files place.settings arguments with
  | .error error => do
    err (units "Error: " ++ error.message)
    err (units "Run with --help for usage.")
    return 1
  | .ok options => do
    if options.help then
      out generateHelp
      return 0
    match ← (steps options place).run with
    | .ok () => return 0
    | .error error =>
      (error.lines options.template).forM fun line =>
        err (colored (options.color && place.color) (units "31") line)
      return 1

theorem forM_err (shown : Text → Text) (lines : List Text) (written : List Line) :
    (lines.forM fun line => err (shown line)).run written =
      ((), written ++ (lines.map shown).map .err) := by
  induction lines generalizing written with
  | nil =>
    rw [List.map_nil, List.map_nil, List.append_nil]
    rfl
  | cons line lines ih =>
    have hfirst : ((line :: lines).forM fun line => err (shown line)).run written =
        (lines.forM fun line => err (shown line)).run (written ++ [.err (shown line)]) := rfl
    rw [hfirst, ih, List.append_assoc]
    rfl

/-- Printing a list of prompts throws nothing. -/
theorem forM_out (prompts : List Text) (written : List Line) :
    (prompts.forM fun prompt => (out prompt : ExceptT RunError (StateM (List Line)) Unit)).run.run
      written =
      (.ok (), written ++ prompts.map .out) := by
  induction prompts generalizing written with
  | nil =>
    rw [List.map_nil, List.append_nil]
    rfl
  | cons prompt prompts ih =>
    have hfirst : ((prompt :: prompts).forM fun prompt =>
          (out prompt : ExceptT RunError (StateM (List Line)) Unit)).run.run written =
        (prompts.forM fun prompt =>
          (out prompt : ExceptT RunError (StateM (List Line)) Unit)).run.run
            (written ++ [.out prompt]) := rfl
    rw [hfirst, ih, List.append_assoc]
    rfl

/-- A step that comes to a value goes on with it. -/
theorem ofExcept_ok_bind {α β : Type} (value : α)
    (next : α → ExceptT RunError (StateM (List Line)) β) :
    (MonadExcept.ofExcept (.ok value : Except RunError α) >>= next) = next value := rfl

/-- A step that throws ends the run and writes nothing. -/
theorem ofExcept_error_bind {α β : Type} (error : RunError)
    (next : α → ExceptT RunError (StateM (List Line)) β) (written : List Line) :
    (MonadExcept.ofExcept (.error error : Except RunError α) >>= next).run.run written =
      (.error error, written) := rfl

/-- **What goes wrong goes wrong before the first line is printed**: the steps of a run write all
lines or throw, and then what was written is what was written before. -/
theorem steps_run (options : GenerateOptions) (place : Surroundings) (written : List Line) :
    (steps options place).run.run written =
      match (options.produce place).1 with
      | .error error => (.error error, written)
      | .ok lines => (.ok (), written ++ lines.map .out) := by
  unfold steps
  cases hanswers : options.answers place with
  | error error =>
    have hproduce : (options.produce place).1 = .error (.load error) := by
      simp only [GenerateOptions.produce, hanswers]
    rw [hproduce]
    rfl
  | ok answers =>
    rw [produce_fst hanswers, create_fresh]
    -- the tree is shown without rendering; the reader made here is fresh, so
    -- it reads with number one
    simp only [Except.mapError, ofExcept_ok_bind]
    by_cases hasked : options.tree = true
    · simp only [if_pos hasked, parse_fresh]
      cases hparsed : Grammar.standard.parse (.template 1) options.template with
      | error error => exact ofExcept_error_bind _ _ written
      | ok tree =>
        simp only [ofExcept_ok_bind, GenerateOptions.treeLines]
        by_cases hjson : options.json = true
        · simp only [if_pos hjson]
          rfl
        · simp only [if_neg hjson]
          rfl
    · simp only [if_neg hasked]
      have hgenerated : ((freshGenerator options).generate (environment options place answers)
          (.template options.template) options.count none).1 =
            generated options (environment options place answers) := rfl
      rw [hgenerated]
      cases hparsed : Grammar.standard.parse (.template 1) options.template with
      | error error =>
        rw [generated_error hparsed]
        exact ofExcept_error_bind _ _ written
      | ok tree =>
        dsimp only
        cases generated options (environment options place answers) with
        | error error => exact ofExcept_error_bind _ _ written
        | ok prompts =>
          simp only [ofExcept_ok_bind, GenerateOptions.promptLines, Except.map]
          by_cases hjson : options.json = true
          · simp only [if_pos hjson]
            rfl
          · simp only [if_neg hjson]
            exact forM_out prompts written

/-- **The program call by call** comes to what a run comes to: its lines to the output or its lines
to the errors, one call for each and in order, and a code. -/
theorem account_eq (arguments : List Text) (place : Surroundings) :
    (account arguments place).run [] =
      ((runGenerate arguments place).code,
        (runGenerate arguments place).out.map .out ++
          (runGenerate arguments place).err.map .err) := by
  unfold account runGenerate
  cases GenerateOptions.read place.files place.settings arguments with
  | error error => rfl
  | ok options =>
    dsimp only
    by_cases hhelp : options.help = true
    · simp only [if_pos hhelp]
      rfl
    · simp only [if_neg hhelp]
      have hsteps := steps_run options place []
      rw [StateT.run_bind, hsteps]
      rcases options.produce place with ⟨error | lines, notices⟩
      · -- nothing was written before the error, so its lines are all that is written
        show StateT.run ((error.lines options.template).forM (fun line =>
          err (colored (options.color && place.color) (units "31") line)) >>= fun _ =>
            pure 1) [] = _
        rw [StateT.run_bind, forM_err]
        rfl
      · simp only [List.nil_append, List.map_nil, List.append_nil]
        rfl

/-! ## 4. All or nothing -/

/-- Every error has something to say. -/
theorem lines_ne_nil (template : Text) (error : RunError) : error.lines template ≠ [] := by
  unfold RunError.lines
  split <;> simp [SyntaxError.report]

/-- A run that ends in failure: it printed nothing, and said why. -/
structure Refused (run : Completion) : Prop where
  code : run.code = 1
  out : run.out = []
  err : run.err ≠ []

/-- A run that ends in success: it printed these lines, and complained of nothing. -/
structure Printed (run : Completion) (lines : List Text) : Prop where
  code : run.code = 0
  out : run.out = lines
  err : run.err = []

theorem refused_of_read {error : UsageError}
    (h : GenerateOptions.read place.files place.settings arguments = .error error) :
    Refused (runGenerate arguments place) := by
  simp only [runGenerate, h]
  exact ⟨rfl, rfl, List.cons_ne_nil _ _⟩

theorem printed_help
    (hread : GenerateOptions.read place.files place.settings arguments = .ok options)
    (hhelp : options.help = true) : Printed (runGenerate arguments place) [generateHelp] := by
  simp only [runGenerate, hread, if_pos hhelp]
  exact ⟨rfl, rfl, rfl⟩

section Produced

variable (hread : GenerateOptions.read place.files place.settings arguments = .ok options)
  (hhelp : options.help = false)
include hread hhelp

theorem refused_of_produce {error : RunError} (h : (options.produce place).1 = .error error) :
    Refused (runGenerate arguments place) := by
  have hnot : ¬options.help = true := by simp [hhelp]
  simp only [runGenerate, hread, if_neg hnot]
  rcases hproduce : options.produce place with ⟨result, notices⟩
  rw [hproduce] at h
  obtain rfl : result = .error error := h
  exact ⟨rfl, rfl, fun hnil => lines_ne_nil _ _ (List.map_eq_nil_iff.1 hnil)⟩

theorem printed_of_produce {lines : List Text} (h : (options.produce place).1 = .ok lines) :
    Printed (runGenerate arguments place) lines := by
  have hnot : ¬options.help = true := by simp [hhelp]
  simp only [runGenerate, hread, if_neg hnot]
  rcases hproduce : options.produce place with ⟨result, notices⟩
  rw [hproduce] at h
  obtain rfl : result = .ok lines := h
  exact ⟨rfl, rfl, rfl⟩

end Produced

theorem Renders.standard (h : Renders arguments place options env tree) :
    env.grammar = .standard := by
  obtain ⟨answers, -, rfl⟩ := h.starts
  rfl

/-- A run that gets to its prompts ends as the call for them does. -/
theorem Renders.produce (h : Renders arguments place options env tree) :
    (options.produce place).1 = ((generated options env).mapError .generation).map
      options.promptLines := by
  obtain ⟨answers, hstarts, rfl⟩ := h.starts
  have hasked : ¬options.tree = true := by simp [h.asked]
  rw [produce_fst hstarts.wildcards, h.parsed]
  simp only [if_neg hasked]

/-- The call for prompts fails at the count, at a walk or at the enumeration. -/
theorem Renders.stops (h : Renders arguments place options env tree) {error : GenerationError}
    (hfails : generated options env = .error error) : Stops arguments place := by
  rw [generated_eq h.standard h.parsed] at hfails
  cases hcount : options.count.toNat? with
  | none => exact .count h hcount
  | some count =>
    rw [hcount] at hfails
    obtain ⟨fault, hfault, -⟩ := exists_of_mapError hfails
    rcases Command.prompts_error_iff.1 hfault
      with ⟨hmethod, walk, hwalk, hfailsAt⟩ | ⟨hmethod, hsome, hall⟩
    · exact .walk h hcount hmethod hwalk hfailsAt
    · exact .enumeration h hcount hmethod hsome hall

theorem Renders.refused (h : Renders arguments place options env tree) {error : GenerationError}
    (hfails : generated options env = .error error) : Refused (runGenerate arguments place) := by
  obtain ⟨answers, hstarts, -⟩ := h.starts
  have hproduce : (options.produce place).1 = .error (.generation error) := by
    rw [h.produce, hfails]
    rfl
  exact refused_of_produce hstarts.read hstarts.help hproduce

/-- Wherever a run stops, nothing was printed. -/
theorem Stops.refused (h : Stops arguments place) : Refused (runGenerate arguments place) := by
  have hprompts : ∀ {options env tree count fault}, Renders arguments place options env tree →
      options.count.toNat? = some count → (tree.prompts env options.method count readSession).1 =
        .error fault →
      Refused (runGenerate arguments place) := by
    intro options env tree count fault hrenders hcount hfault
    have hgenerated : generated options env = .error (.walk fault) := by
      rw [generated_eq hrenders.standard hrenders.parsed, hcount]
      simp only [hfault]
      rfl
    exact hrenders.refused hgenerated
  -- one case for each way to stop, in the order in which the program comes to them
  cases h with
  | arguments h => exact refused_of_read h
  | @wildcards options error read help h =>
    have hproduce : (options.produce place).1 = .error (.load error) := by
      simp only [GenerateOptions.produce, h]
    exact refused_of_produce read help hproduce
  | @template options answers error starts h =>
    have hproduce : (options.produce place).1 = .error (.generation (.template error)) := by
      rw [produce_fst starts.wildcards, h]
    exact refused_of_produce starts.read starts.help hproduce
  | @count options env tree renders h =>
    have hgenerated : generated options env = .error (.count options.count) := by
      rw [generated_eq renders.standard renders.parsed, h]
    exact renders.refused hgenerated
  | walk renders counted method among h =>
    exact hprompts renders counted (Command.prompts_error_iff.2 (.inl ⟨method, _, among, h⟩))
  | enumeration renders counted method several h =>
    exact hprompts renders counted (Command.prompts_error_iff.2 (.inr ⟨method, several, h⟩))

/-- A run stops, or it shows what it printed. -/
theorem stops_or_shows (arguments : List Text) (place : Surroundings) :
    Stops arguments place ∨ ∃ lines, Shows arguments place lines ∧
      Printed (runGenerate arguments place) lines := by
  -- the program tests in this order, and stops at the first test that fails
  cases hread : GenerateOptions.read place.files place.settings arguments with
  | error error => exact .inl (.arguments hread)
  | ok options =>
    by_cases hhelp : options.help = true
    · exact .inr ⟨_, .help hread hhelp, printed_help hread hhelp⟩
    · have hnot : options.help = false := by simpa using hhelp
      cases hanswers : options.answers place with
      | error error => exact .inl (.wildcards hread hnot hanswers)
      | ok answers =>
        have hstarts : Starts arguments place options answers := ⟨hread, hnot, hanswers⟩
        cases hparsed : Grammar.standard.parse (.template 1) options.template with
        | error error => exact .inl (.template hstarts hparsed)
        | ok tree =>
          by_cases hasked : options.tree = true
          · have hproduce : (options.produce place).1 = .ok (options.treeLines tree) := by
              rw [produce_fst hanswers, hparsed]
              simp only [if_pos hasked]
            refine .inr ⟨_, ?_, printed_of_produce hread hnot hproduce⟩
            unfold GenerateOptions.treeLines
            split
            · next hjson => exact .treeDocument hstarts hparsed hasked hjson
            · next hplain => exact .tree hstarts hparsed hasked (by simpa using hplain)
          · have hrenders : Renders arguments place options (environment options place answers)
                tree :=
              ⟨⟨answers, hstarts, rfl⟩, hparsed, by simpa using hasked⟩
            cases hgenerated : generated options (environment options place answers) with
            | error error => exact .inl (hrenders.stops hgenerated)
            | ok prompts =>
              have hproduce : (options.produce place).1 = .ok (options.promptLines prompts) := by
                rw [hrenders.produce, hgenerated]
                rfl
              refine .inr ⟨_, ?_, printed_of_produce hread hnot hproduce⟩
              unfold GenerateOptions.promptLines
              split
              · next hjson => exact .promptDocument hrenders hjson hgenerated
              · next hplain => exact .prompts hrenders (by simpa using hplain) hgenerated

/-- **The command line is all or nothing.** For all arguments, files, settings and draws, either the
run stops at one of its points, prints nothing and says why, with code 1; or it stops nowhere,
complains of nothing and prints in full what it shows, with code 0. And these lines are what the
program writes, call by call, where a line once written can not be taken back. -/
theorem runGenerate_all_or_nothing (arguments : List Text) (place : Surroundings) :
    (Stops arguments place ∧ Refused (runGenerate arguments place) ∨
        ¬Stops arguments place ∧
          ∃ lines, Shows arguments place lines ∧ Printed (runGenerate arguments place) lines) ∧
      (account arguments place).run [] = ((runGenerate arguments place).code,
        (runGenerate arguments place).out.map .out ++
          (runGenerate arguments place).err.map .err) := by
  refine ⟨?_, account_eq arguments place⟩
  rcases stops_or_shows arguments place with hstops | ⟨lines, hshows, hprinted⟩
  · exact .inl ⟨hstops, hstops.refused⟩
  · refine .inr ⟨fun hstops => ?_, lines, hshows, hprinted⟩
    have hcode := hstops.refused.code
    rw [hprinted.code] at hcode
    cases hcode

end Generating

end PromptTemplate
