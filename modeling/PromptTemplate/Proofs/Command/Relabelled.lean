/-
`Relabelled.lean` -- other labels on the nodes of a tree.

A label is an identity and nothing else: no constructor looks at one, putting together and
trimming move none, and no line of a description tells one. So each of these commutes with
`Command.relabelled`, which gives every node of a tree another label. What is left of a tree
without its labels, `Command.unlabelled`, is the case where all nodes get the same one.
-/
import PromptTemplate.Proofs.Command.NormalForm

set_option autoImplicit false

namespace PromptTemplate

namespace Command

/-! ## 1. The tree under other labels -/

mutual

/-- The tree with other labels on its nodes. -/
@[simp] def relabelled (f : Label → Label) : Command → Command
  | .literal text => .literal text
  | .comment text => .comment text
  | .sequence children => .sequence (relabelledAll f children)
  | .variant label options least most separator sampling =>
    .variant (f label) (relabelledOptions f options) least most separator sampling
  | .wildcard label name inlined sampling =>
    .wildcard (f label) (relabelledName f name) (relabelledVariables f inlined) sampling
  | .wrap wrapper inner => .wrap (relabelled f wrapper) (relabelled f inner)
  | .probability label chance value sampling =>
    .probability (f label) chance (relabelled f value) sampling
  | .condition branches otherwise =>
    .condition (relabelledBranches f branches) (relabelled f otherwise)
  | .access name fallback =>
    .access name (match fallback with
      | some value => some (relabelled f value)
      | none => none)
  | .assignment name value overwrite immediate =>
    .assignment name (relabelled f value) overwrite immediate

/-- The name of a wildcard under other labels. -/
def relabelledName (f : Label → Label) : WildcardName Command → WildcardName Command
  | .fixed name => .fixed name
  | .rendered command => .rendered (relabelled f command)

/-- Several trees under other labels. -/
def relabelledAll (f : Label → Label) : List Command → List Command
  | [] => []
  | command :: rest => relabelled f command :: relabelledAll f rest

/-- Options with other labels on their values. -/
def relabelledOptions (f : Label → Label) : List (Weighted Command) → List (Weighted Command)
  | [] => []
  | ⟨weight, value⟩ :: rest => ⟨weight, relabelled f value⟩ :: relabelledOptions f rest

/-- Inline variables with other labels on their values. -/
def relabelledVariables (f : Label → Label) : List (Text × Command) → List (Text × Command)
  | [] => []
  | (name, value) :: rest => (name, relabelled f value) :: relabelledVariables f rest

/-- Branches with other labels on their values. -/
def relabelledBranches (f : Label → Label) : List (Guarded Command) → List (Guarded Command)
  | [] => []
  | ⟨guard, value⟩ :: rest => ⟨guard, relabelled f value⟩ :: relabelledBranches f rest

end

/-- The label of no node. -/
def noLabel : Label := ⟨[], .built 0⟩

/-- The tree with the labels of its nodes left out. -/
abbrev unlabelled (command : Command) : Command := command.relabelled fun _ => noLabel

variable {f : Label → Label}

/-! ## 2. Lists of parts -/

/-- Nodes are relabelled one by one. -/
theorem relabelledAll_eq (f : Label → Label) (commands : List Command) :
    relabelledAll f commands = commands.map (relabelled f) := by
  induction commands with
  | nil => rfl
  | cons command rest ih => rw [relabelledAll, ih, List.map_cons]

/-- Options are relabelled in their values. -/
theorem relabelledOptions_eq (f : Label → Label) (options : List (Weighted Command)) :
    relabelledOptions f options =
      options.map fun option => ⟨option.weight, option.value.relabelled f⟩ := by
  induction options with
  | nil => rfl
  | cons option rest ih => rw [relabelledOptions, ih, List.map_cons]

/-- So are inline variables. -/
theorem relabelledVariables_eq (f : Label → Label) (inlined : List (Text × Command)) :
    relabelledVariables f inlined = inlined.map (Prod.map id (relabelled f)) := by
  induction inlined with
  | nil => rfl
  | cons v rest ih => rw [relabelledVariables, ih, List.map_cons, Prod.map, id]

/-- So are branches. -/
theorem relabelledBranches_eq (f : Label → Label) (branches : List (Guarded Command)) :
    relabelledBranches f branches =
      branches.map fun branch => ⟨branch.guard, branch.value.relabelled f⟩ := by
  induction branches with
  | nil => rfl
  | cons branch rest ih => rw [relabelledBranches, ih, List.map_cons]

/-- A variable that is read is relabelled in its default. -/
theorem relabelled_access (name : Text) (fallback : Option Command) :
    (access name fallback).relabelled f = .access name (fallback.map (relabelled f)) := by
  cases fallback <;> rfl

/-- There are as many options as before. -/
theorem length_relabelledOptions (options : List (Weighted Command)) :
    (relabelledOptions f options).length = options.length := by
  rw [relabelledOptions_eq, List.length_map]

/-- The parts of a relabelled node are its relabelled parts. -/
theorem parts_relabelled (command : Command) :
    (command.relabelled f).parts = command.parts.map (relabelled f) := by
  cases command with
  | literal text => rfl
  | comment text => rfl
  | sequence children => exact relabelledAll_eq f children
  | variant label options least most separator sampling =>
    simp only [relabelled, parts, relabelledOptions_eq, List.map_map]
    rfl
  | wildcard label name inlined sampling =>
    simp only [relabelled, parts, relabelledVariables_eq, List.map_append, List.map_map]
    cases name <;> rfl
  | wrap wrapper inner => rfl
  | probability label chance value sampling => rfl
  | condition branches otherwise =>
    simp only [relabelled, parts, relabelledBranches_eq, List.map_append, List.map_map]
    rfl
  | access name fallback => cases fallback <;> rfl
  | assignment name value overwrite immediate => rfl

/-- Under other labels the nodes have what the nodes had that they come from. -/
theorem Everywhere.relabelled {p : Command → Prop} {command : Command}
    (h : command.Everywhere fun c => p (c.relabelled f)) : (command.relabelled f).Everywhere p := by
  induction h with
  | node command here _ ih =>
    refine .node _ here fun part hpart => ?_
    rw [parts_relabelled] at hpart
    obtain ⟨original, hmem, rfl⟩ := List.mem_map.1 hpart
    exact ih original hmem

/-- A tree keeps its labels if each of its nodes does. -/
theorem relabelled_eq_self {command : Command}
    (hself : command.Everywhere fun c => ∀ label ∈ c.label?, f label = label) :
    command.relabelled f = command := by
  induction hself with
  | node command here _ ih =>
    cases command with
    | literal text => rfl
    | comment text => rfl
    | sequence children =>
      rw [relabelled, relabelledAll_eq]
      exact congrArg Command.sequence ((List.map_congr_left ih).trans (List.map_id children))
    | variant label options least most separator sampling =>
      have hoptions : relabelledOptions f options = options := by
        rw [relabelledOptions_eq]
        refine (List.map_congr_left fun option hmem => ?_).trans (List.map_id options)
        rw [ih option.value (List.mem_map_of_mem hmem)]
        rfl
      rw [relabelled, hoptions, here label rfl]
    | wildcard label name inlined sampling =>
      have hname : relabelledName f name = name := by
        cases name with
        | fixed name => rfl
        | rendered command =>
          rw [relabelledName, ih command (List.mem_append_left _ (List.mem_singleton_self _))]
      have hinlined : relabelledVariables f inlined = inlined := by
        rw [relabelledVariables_eq]
        refine (List.map_congr_left fun v hmem => ?_).trans (List.map_id inlined)
        rw [Prod.map, ih v.2 (List.mem_append_right _ (List.mem_map_of_mem hmem))]
        rfl
      rw [relabelled, hname, hinlined, here label rfl]
    | wrap wrapper inner =>
      rw [relabelled, ih wrapper List.mem_cons_self,
        ih inner (List.mem_cons_of_mem _ List.mem_cons_self)]
    | probability label chance value sampling =>
      rw [relabelled, ih value (List.mem_singleton_self _), here label rfl]
    | condition branches otherwise =>
      have hbranches : relabelledBranches f branches = branches := by
        rw [relabelledBranches_eq]
        refine (List.map_congr_left fun branch hmem => ?_).trans (List.map_id branches)
        rw [ih branch.value (List.mem_append_left _ (List.mem_map_of_mem hmem))]
        rfl
      rw [relabelled, hbranches, ih otherwise (List.mem_append_right _ (List.mem_singleton_self _))]
    | access name fallback =>
      cases fallback with
      | none => rfl
      | some value => rw [relabelled_access, Option.map_some, ih value (List.mem_singleton_self _)]
    | assignment name value overwrite immediate =>
      rw [relabelled, ih value (List.mem_singleton_self _)]

/-- Without another label the tree is the same. -/
@[simp] theorem relabelled_id (command : Command) : command.relabelled id = command :=
  relabelled_eq_self (everywhere_of_forall (fun _ _ _ => rfl) command)

/-- Other labels leave the fields of a node as they were. -/
theorem fields_relabelled (command : Command) : (command.relabelled f).fields = command.fields := by
  cases command with
  | access name fallback => cases fallback <;> rfl
  | _ => simp only [relabelled, fields]

/-! ## 3. Putting together -/

/-- A literal carries no label, so it is told under any. -/
theorem relabelled_eq_literal {command : Command} {text : Text} :
    command.relabelled f = .literal text ↔ command = .literal text := by
  cases command with
  | access name fallback => simp [relabelled_access]
  | _ => simp [relabelled]

/-- Merging literals does not look at labels. -/
theorem mergeLiterals_relabelled (commands : List Command) :
    mergeLiterals (commands.map (relabelled f)) = (mergeLiterals commands).map (relabelled f) := by
  fun_induction mergeLiterals commands with
  | case1 => rfl
  | case2 s rest t merged hmerged ih =>
    rw [List.map_cons, relabelled, mergeLiterals, ih, hmerged]
    rfl
  | case3 s rest hnone ih =>
    rw [List.map_cons, relabelled, mergeLiterals, ih]
    split
    · next t merged hmerged =>
      -- a literal at the head under other labels was one before, against `hnone`
      obtain ⟨first, others, hfirst, hliteral, rfl⟩ := List.map_eq_cons_iff.1 hmerged
      rw [relabelled_eq_literal] at hliteral
      exact (hnone t others (by rw [hfirst, hliteral])).elim
    · rw [List.map_cons, relabelled]
  | case4 other rest hother ih =>
    rw [List.map_cons, mergeLiterals, ih, List.map_cons]
    intro s hs
    exact hother s (relabelled_eq_literal.1 hs)

/-- Commands are put together in the same way under other labels. -/
theorem relabelled_ofList (commands : List Command) :
    (ofList commands).relabelled f = ofList (commands.map (relabelled f)) := by
  rw [ofList, ofList, mergeLiterals_relabelled]
  rcases mergeLiterals commands with _ | ⟨first, _ | ⟨second, rest⟩⟩
  · rfl
  · rfl
  · simp only [relabelled, relabelledAll_eq, List.map_cons]

/-! ## 4. Constructors -/

/-- Neither does checking weights. -/
theorem checkOptions_relabelled (options : List (Option Number × Command)) :
    checkOptions (options.map (Prod.map id (relabelled f))) =
      (checkOptions options).map (relabelledOptions f) := by
  induction options with
  | nil => rfl
  | cons option rest ih =>
    obtain ⟨weight, value⟩ := option
    rw [List.map_cons, Prod.map, checkOptions, checkOptions, ih, id]
    cases checkWeight (weight.getD 1) with
    | error error => rfl
    | ok weight =>
      cases checkOptions rest with
      | error error => rfl
      | ok checked => rfl

/-- A branch as it is declared, with other labels on its value. -/
def BranchInput.relabelled (f : Label → Label) (branch : BranchInput) : BranchInput :=
  ⟨branch.key, branch.pattern, branch.value.relabelled f⟩

/-- Neither does compiling patterns. -/
theorem compileBranches_relabelled (branches : List BranchInput) :
    compileBranches (branches.map (BranchInput.relabelled f)) =
      (compileBranches branches).map (relabelledBranches f) := by
  induction branches with
  | nil => rfl
  | cons branch rest ih =>
    rw [List.map_cons, compileBranches, compileBranches, ih, BranchInput.relabelled]
    cases Pattern.read false branch.pattern with
    | error fault => rfl
    | ok pattern =>
      cases compileBranches rest with
      | error error => rfl
      | ok compiled => rfl

/-- The same options are made to a variant, or refused, under every label. -/
theorem makeVariant_relabelled (label : Label) (options : List (Option Number × Command))
    (settings : VariantSettings) :
    (makeVariant label options settings).map (relabelled f) =
      makeVariant (f label) (options.map (Prod.map id (relabelled f))) settings := by
  rw [makeVariant, makeVariant, checkOptions_relabelled]
  -- the checks read weights and bounds only, so they go alike before and after
  cases checkOptions options with
  | error error => rfl
  | ok checked =>
    have hchecked : Except.map (relabelledOptions f) (.ok checked : Except BuildError _) =
        .ok (relabelledOptions f checked) := rfl
    simp only [hchecked, bind, Except.bind, length_relabelledOptions]
    cases checkBound false settings.least with
    | error error => rfl
    | ok least =>
      cases checkBound true settings.most with
      | error error => rfl
      | ok most =>
        rw [apply_ite (Except.map (relabelled f))]
        simp only [Except.map, pure, Except.pure, relabelled]

/-- A chance is checked and not the label. -/
theorem makeProbability_relabelled (label : Label) (chance : Number) (value : Command)
    (sampling : Option Sampling) :
    (makeProbability label chance value sampling).map (relabelled f) =
      makeProbability (f label) chance (value.relabelled f) sampling := by
  cases chance with
  | _ => simp only [makeProbability, Except.map, relabelled]

/-- The patterns of a condition are compiled and not its labels. -/
theorem makeCondition_relabelled (branches : List BranchInput) (otherwise : Command) :
    (makeCondition branches otherwise).map (relabelled f) =
      makeCondition (branches.map (BranchInput.relabelled f)) (otherwise.relabelled f) := by
  rw [makeCondition, makeCondition, List.isEmpty_map, compileBranches_relabelled]
  split
  · rfl
  · cases compileBranches branches with
    | error error => rfl
    | ok compiled => simp only [Except.map, relabelled]

/-- The name of a variable is checked and not the labels of its default. -/
theorem makeAccess_relabelled (name : Text) (fallback : Option Command) :
    (makeAccess name fallback).map (relabelled f) =
      makeAccess name (fallback.map (relabelled f)) := by
  rw [makeAccess, makeAccess]
  split
  · rw [Except.map, relabelled_access]
  · rfl

/-- So is that of an assignment. -/
theorem makeAssignment_relabelled (name : Text) (value : Command) (overwrite immediate : Bool) :
    (makeAssignment name value overwrite immediate).map (relabelled f) =
      makeAssignment name (value.relabelled f) overwrite immediate := by
  rw [makeAssignment, makeAssignment]
  split
  · simp only [Except.map, relabelled]
  · rfl

/-- A literal name is fixed under every label. -/
theorem makeWildcard_relabelled (label : Label) (name : Command) (inlined : List (Text × Command))
    (sampling : Option Sampling) :
    (makeWildcard label (.rendered name) inlined sampling).map (relabelled f) =
      makeWildcard (f label) (.rendered (name.relabelled f))
        (inlined.map (Prod.map id (relabelled f))) sampling := by
  rw [← relabelledVariables_eq]
  cases name with
  | literal text =>
    cases text with
    | nil => rfl
    | cons u text => simp only [makeWildcard, Except.map, relabelled, relabelledName]
  | access key fallback =>
    cases fallback <;> simp only [makeWildcard, Except.map, relabelled, relabelledName]
  | _ => simp only [makeWildcard, Except.map, relabelled, relabelledName]

/-- Setting a variable looks at names only. -/
theorem setVariable_relabelled (name : Text) (value : Command) (inlined : List (Text × Command)) :
    (setVariable name value inlined).map (Prod.map id (relabelled f)) =
      setVariable name (value.relabelled f) (inlined.map (Prod.map id (relabelled f))) := by
  have hnames : (inlined.map (Prod.map id (relabelled f))).any (fun v => v.1 = name) =
      inlined.any fun v => v.1 = name := by
    rw [List.any_map]
    rfl
  rw [setVariable, setVariable, hnames]
  split
  · rw [List.map_map, List.map_map]
    refine List.map_congr_left fun v _ => ?_
    by_cases hv : v.1 = name
    · simp [hv]
    · simp [hv]
  · rw [List.map_append]
    rfl

end Command

/-! ## 5. Records of inline variables -/

namespace InlineRecord

variable {f : Label → Label}

/-- The record with other labels on all that it holds. -/
def relabelled (f : Label → Label) (record : InlineRecord) : InlineRecord :=
  ⟨record.entries.map (Prod.map id (Command.relabelled f)),
    record.inherited.map (Command.relabelled f)⟩

/-- What a record inherits from has the same kind under other labels. -/
theorem title_relabelled (record : InlineRecord) : (record.relabelled f).title = record.title := by
  rw [title, title, relabelled, List.any_map]
  rfl

/-- A record refuses the same names under other labels, for it looks at names and fields. -/
theorem set_relabelled (name : Text) (value : Command) (record : InlineRecord) :
    (record.relabelled f).set name (value.relabelled f) =
      (record.set name value).map (relabelled f) := by
  have hrefuses : (record.relabelled f).refuses name = record.refuses name := by
    rw [refuses, refuses, relabelled, List.any_map, Option.any_map]
    congr 2
    funext node
    exact congrArg (List.contains · name) (Command.fields_relabelled node)
  rw [set, set, hrefuses]
  split
  · rfl
  · split
    · rfl
    · rw [Option.map_some, relabelled, relabelled, Command.setVariable_relabelled]

end InlineRecord

end PromptTemplate
