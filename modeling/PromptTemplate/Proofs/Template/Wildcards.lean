/-
`Wildcards.lean` -- where the wildcards of a tree were read.

A wildcard is made by one production only, and the trees around it are put together without
touching it. So every wildcard of a tree that was read is what that production made at some place
of the source, or of the value of an inline variable that stands in it (`Sited`). What the
production found there is told by a block: the marks, the path, and the text of the bindings
between the parentheses behind it (`WildcardBlock`).
-/
import PromptTemplate.Proofs.Template.Origins
import PromptTemplate.Proofs.Template.Places

set_option autoImplicit false

namespace PromptTemplate

/-- The node is a wildcard. -/
def Command.IsWildcard : Command → Prop
  | .wildcard .. => True
  | _ => False

/-- The inline variables of a node, if it is a wildcard. -/
def Command.inlined? : Command → Option (List (Text × Command))
  | .wildcard _ _ inlined _ => some inlined
  | _ => none

/-- Only wildcards have inline variables. -/
theorem Command.exists_of_inlined? {command : Command} {inlined : List (Text × Command)}
    (h : command.inlined? = some inlined) :
    ∃ label name sampling, command = .wildcard label name inlined sampling := by
  cases command with
  | wildcard label name given sampling =>
    cases h
    exact ⟨label, name, sampling, rfl⟩
  | _ => cases h

/-- Any error: what a reader fails with does not matter here. -/
abbrev anyError : ParseError → Prop := fun _ => True

/-- The errors of any kind are admitted. -/
theorem Template.Setting.admits_anyError (s : Setting) : s.Admits anyError :=
  ⟨fun _ _ => trivial, fun _ => trivial, fun _ _ _ => trivial⟩

namespace Template

/-! ## 1. Nodes that are no wildcards -/

section Free

variable {s : Setting} {inner : Inner} {c : Cursor} {p : Command → Prop}
  (hfree : ∀ command : Command, ¬command.IsWildcard → p command)
  (hblock : ∀ c : Cursor, inner.block.Traces s.source anyError c fun command _ =>
    command.Everywhere p)

include hfree

/-- A node that is no wildcard, with parts that have the property everywhere, has it everywhere. -/
theorem everywhere_of_not_isWildcard {command : Command} (h : ¬command.IsWildcard)
    (hparts : ∀ part ∈ command.parts, part.Everywhere p) : command.Everywhere p :=
  .node command (hfree command h) hparts

/-- Commands put together have it, if each has. -/
theorem everywhere_joined {commands : List Command}
    (h : ∀ command ∈ commands, command.Everywhere p) :
    (Command.ofList commands).Everywhere p :=
  Command.everywhere_ofList (fun _ => hfree _ id) (fun _ => hfree _ id) h

/-- Text is a literal, which is no wildcard. -/
theorem text_holds (context : Context) :
    (text s context).Traces s.source anyError c fun command _ => command.Everywhere p := by
  rw [text]
  refine .bind_here ((textRuns_traces _ _ _).bind fun runs _ _ _ _ => ?_)
  exact .ite (fun _ => (Reader.Traces.expect _).bind fun _ _ _ _ _ => .reject) fun _ =>
    .pure (everywhere_of_not_isWildcard hfree id (List.forall_mem_nil _))

/-- Neither is a comment. -/
theorem commentBlock_holds :
    (commentBlock s).Traces s.source anyError c fun command _ => command.Everywhere p := by
  refine commentBlock_comment.mono ?_
  rintro _ after - ⟨content, rfl⟩
  exact everywhere_of_not_isWildcard hfree id (List.forall_mem_nil _)

include hblock

/-- An operand has the property where the block inside has it. -/
theorem operand_holds :
    (operand inner).Traces s.source anyError c fun command _ => command.Everywhere p := by
  rw [operand]
  refine Reader.Traces.skipBlanks.bind fun _ next _ _ _ =>
    (hblock next).bind fun command _ _ _ hread => .pure ?_
  exact Command.everywhere_trimOperand (fun _ => hfree _ id) (fun _ => hfree _ id) hread

/-- So has a part with a chance, which is no wildcard itself. -/
theorem probabilityBlock_holds :
    (probabilityBlock s inner).Traces s.source anyError c fun command _ =>
      command.Everywhere p := by
  rw [probabilityBlock]
  refine .bind_here ((Reader.Traces.accept _).bind fun _ _ _ _ _ => ?_)
  refine Reader.Traces.skipBlanks.bind fun _ _ _ _ _ =>
    real_traces.attempt.bind fun found _ _ _ _ => ?_
  cases found with
  | none => exact (Reader.Traces.expect _).bind fun _ _ _ _ _ => .reject
  | some chance =>
    refine (Reader.Traces.accept _).bind fun _ _ _ _ _ =>
      (operand_holds hfree hblock).bind fun value _ _ _ hvalue => ?_
    refine Reader.Traces.skipBlanks.bind fun _ _ _ _ _ =>
      (Reader.Traces.accept _).bind fun _ _ _ _ _ =>
        build_traces s.admits_anyError fun command hmade => ?_
    -- the chance was checked, so the node is what the constructor would make of it
    obtain ⟨q, rfl⟩ := Command.exists_of_makeProbability hmade
    exact everywhere_of_not_isWildcard hfree id (List.forall_mem_singleton.2 hvalue)

/-- So has the value of a branch. -/
theorem branch_holds :
    (branch s inner).Traces s.source anyError c fun branch _ => branch.value.Everywhere p := by
  rw [branch]
  exact pattern_traces.bind fun _ _ _ _ _ =>
    (operand_holds hfree hblock).bind fun _ _ _ _ hvalue => .pure hvalue

/-- So have those of further branches, by induction on the rounds. -/
theorem moreBranches_holds (rounds : Nat) :
    (moreBranches s inner rounds).Traces s.source anyError c fun rest _ =>
      (∀ branch ∈ rest.1, branch.value.Everywhere p) ∧ rest.2.Everywhere p := by
  induction rounds generalizing c with
  | zero => exact .exhausted
  | succ rounds ih =>
    rw [moreBranches]
    -- behind each bar stands a branch or the value for all other cases
    refine (Reader.Traces.tryAccept _).bind fun _ next _ _ _ => .ite (fun _ => ?_) fun _ => ?_
    · have hbranch : (do Reader.skipBlanks; branch s inner : Reader Command.BranchInput).Traces
          s.source anyError next fun branch _ => branch.value.Everywhere p :=
        Reader.Traces.skipBlanks.bind fun _ _ _ _ _ => branch_holds hfree hblock
      refine hbranch.attempt.bind fun found _ _ _ hfound => ?_
      cases found with
      | none =>
        exact (operand_holds hfree hblock).bind fun _ _ _ _ hvalue =>
        .pure ⟨List.forall_mem_nil _, hvalue⟩
      | some branch =>
        exact ih.bind fun rest _ _ _ hrest =>
          .pure ⟨List.forall_mem_cons.2 ⟨hfound.1 branch rfl, hrest.1⟩, hrest.2⟩
    · exact .pure ⟨List.forall_mem_nil _,
        everywhere_of_not_isWildcard hfree id (List.forall_mem_nil _)⟩

/-- So has a condition, with all its branches. -/
theorem conditionBlock_holds :
    (conditionBlock s inner).Traces s.source anyError c fun command _ => command.Everywhere p := by
  rw [conditionBlock]
  refine (Reader.Traces.accept _).bind fun _ _ hopened _ _ => .bind_here ?_
  refine (branch_holds hfree hblock).bind fun first _ _ _ hfirst =>
    (moreBranches_holds hfree hblock _).bind fun rest _ _ _ hrest => ?_
  refine Reader.Traces.skipBlanks.bind fun _ _ _ _ _ =>
    (Reader.Traces.accept _).bind fun _ _ _ _ _ => ?_
  split
  · next command hmade =>
    -- compiling the expressions leaves the values of the branches as they were
    obtain ⟨compiled, hvalues, rfl⟩ := Command.exists_of_makeCondition hmade
    refine .pure (everywhere_of_not_isWildcard hfree id ?_)
    rw [Command.parts, hvalues]
    refine List.forall_mem_append.2 ⟨?_, List.forall_mem_singleton.2 hrest.2⟩
    exact List.forall_mem_map.2 (List.forall_mem_cons.2 ⟨hfirst, hrest.1⟩)
  · exact failAt_traces s.admits_anyError (fun _ => hopened.position_le) fun _ _ h => by cases h

/-- So has the value of an option. -/
theorem option_holds :
    (option s inner).Traces s.source anyError c fun option _ => option.2.Everywhere p := by
  rw [option]
  refine Reader.Traces.skipBlanks.bind fun _ _ hstart _ _ => .bind_here ?_
  exact (weight_traces s.admits_anyError hstart).attempt.bind fun _ _ _ _ _ =>
    (operand_holds hfree hblock).bind fun _ _ _ _ hvalue => .pure hvalue

/-- So have those of further options, by induction on the rounds. -/
theorem moreOptions_holds (rounds : Nat) :
    (moreOptions s inner rounds).Traces s.source anyError c fun rest _ => ∀ option ∈ rest,
      option.2.Everywhere p := by
  induction rounds generalizing c with
  | zero => exact .exhausted
  | succ rounds ih =>
    rw [moreOptions]
    refine (Reader.Traces.tryAccept _).bind fun _ _ _ _ _ => .ite (fun _ => ?_) fun _ =>
      .pure (List.forall_mem_nil _)
    exact (option_holds hfree hblock).bind fun _ _ _ _ hoption =>
      ih.bind fun _ _ _ _ hrest => .pure (List.forall_mem_cons.2 ⟨hoption, hrest⟩)

/-- So has a variant, with all its options. -/
theorem variantBlock_holds :
    (variantBlock s inner).Traces s.source anyError c fun command _ => command.Everywhere p := by
  rw [variantBlock]
  refine .bind_here ((Reader.Traces.accept _).bind fun _ _ _ _ _ => ?_)
  refine Reader.Traces.skipBlanks.bind fun _ _ _ _ _ => sampler_traces.bind fun _ _ _ _ _ =>
    (bounds_traces s.admits_anyError).attempt.bind fun declared _ _ _ _ => ?_
  refine (option_holds hfree hblock).bind fun first _ _ _ hfirst =>
    (moreOptions_holds hfree hblock _).bind fun rest _ _ _ hrest => ?_
  refine Reader.Traces.skipBlanks.bind fun _ _ _ _ _ =>
    (Reader.Traces.accept _).attempt.bind fun closed _ _ _ _ => ?_
  cases closed with
  | none => exact (Reader.Traces.expect _).bind fun _ _ _ _ _ => .reject
  | some closed =>
    refine build_traces s.admits_anyError fun command hmade => ?_
    -- the weights are checked and the values kept, so the parts are the options that were read
    obtain ⟨checked, least, most, hchecked, rfl⟩ := Command.exists_of_makeVariant hmade
    refine everywhere_of_not_isWildcard hfree id ?_
    rw [Command.parts, Command.map_value_of_checkOptions hchecked]
    exact List.forall_mem_map.2 (List.forall_mem_cons.2 ⟨hfirst, hrest⟩)

/-- So has an assignment, with its value. -/
theorem assignment_holds :
    (assignment s inner).Traces s.source anyError c fun command _ => command.Everywhere p := by
  rw [assignment]
  refine (Reader.Traces.accept _).bind fun _ _ _ _ _ =>
    Reader.Traces.skipBlanks.bind fun _ _ _ _ _ =>
    variableName_traces.bind fun name _ _ _ _ => ?_
  refine Reader.Traces.skipBlanks.bind fun _ _ _ _ _ =>
    (Reader.Traces.tryAccept _).bind fun _ _ _ _ _ =>
    (Reader.Traces.accept _).bind fun _ _ _ _ _ => (Reader.Traces.tryAccept _).bind fun _ _ _ _ _ =>
      ?_
  refine (operand_holds hfree hblock).bind fun value _ _ _ hvalue => ?_
  refine Reader.Traces.skipBlanks.bind fun _ _ _ _ _ =>
    (Reader.Traces.accept _).bind fun _ _ _ _ _ =>
      build_traces s.admits_anyError fun command hmade => ?_
  rw [Command.eq_of_makeAssignment hmade]
  exact everywhere_of_not_isWildcard hfree id (List.forall_mem_singleton.2 hvalue)

/-- So has a variable that is read, with its default. -/
theorem access_holds (inPath : Bool) :
    (access s inner inPath).Traces s.source anyError c fun command _ => command.Everywhere p := by
  have hfallback (c : Cursor) : (fallback inner).Traces s.source anyError c fun found _ =>
      ∀ command ∈ found, command.Everywhere p := by
    rw [fallback]
    refine (Reader.Traces.tryAccept _).bind fun _ _ _ _ _ => .ite (fun _ => ?_) fun _ =>
      .pure fun _ hnone => absurd hnone (Option.not_mem_none _)
    refine (operand_holds hfree hblock).bind fun value _ _ _ hvalue => .pure fun command hcommand =>
      ?_
    cases hcommand
    exact hvalue
  rw [access]
  refine (Reader.Traces.accept _).bind fun _ _ _ _ _ =>
    Reader.Traces.skipBlanks.bind fun _ _ _ _ _ =>
    variableName_traces.bind fun name _ _ _ _ => ?_
  refine Reader.Traces.skipBlanks.bind fun _ place _ _ _ =>
    (hfallback place).bind fun fallback _ _ _ hfallback => ?_
  refine Reader.Traces.skipBlanks.bind fun _ _ _ _ _ =>
    (Reader.Traces.accept _).bind fun _ _ _ _ _ =>
      build_traces s.admits_anyError fun command hmade => ?_
  rw [Command.eq_of_makeAccess hmade]
  refine everywhere_of_not_isWildcard hfree id fun part hpart => ?_
  have hmem := Option.mem_toList.1 hpart
  -- inside of a path a variable without a fallback falls back to its own name
  split at hmem
  · cases hmem
    cases fallback with
    | none => exact everywhere_of_not_isWildcard hfree id (List.forall_mem_nil _)
    | some command => exact hfallback command rfl
  · exact hfallback part hmem

/-- So has a wrapping, with both its parts. -/
theorem wrapBlock_holds :
    (wrapBlock s inner).Traces s.source anyError c fun command _ => command.Everywhere p := by
  rw [wrapBlock]
  refine (Reader.Traces.accept _).bind fun _ _ _ _ _ =>
    (operand_holds hfree hblock).bind fun wrapper _ _ _ hwrapper => ?_
  refine Reader.Traces.skipBlanks.bind fun _ _ _ _ _ =>
    (Reader.Traces.accept _).bind fun _ _ _ _ _ =>
    (operand_holds hfree hblock).bind fun wrapped _ _ _ hwrapped => ?_
  refine Reader.Traces.skipBlanks.bind fun _ _ _ _ _ =>
    (Reader.Traces.accept _).bind fun _ _ _ _ _ => .pure ?_
  exact everywhere_of_not_isWildcard hfree id
    (List.forall_mem_cons.2 ⟨hwrapper, List.forall_mem_singleton.2 hwrapped⟩)

/-- A piece of a path is text or a block of these kinds, and no wildcard. -/
theorem pathChunk_holds :
    (pathChunk s inner).Traces s.source anyError c fun command _ => command.Everywhere p := by
  rw [pathChunk]
  refine .firstOf (List.forall_mem_cons.2 ⟨access_holds hfree hblock true, ?_⟩)
  exact List.forall_mem_cons.2 ⟨variantBlock_holds hfree hblock,
    List.forall_mem_singleton.2 (text_holds hfree .path)⟩

/-- So are all pieces, by induction on the rounds. -/
theorem many_holds (rounds : Nat) :
    (Reader.many (pathChunk s inner) rounds).Traces s.source anyError c fun path _ =>
      ∀ command ∈ path, command.Everywhere p := by
  induction rounds generalizing c with
  | zero => exact .exhausted
  | succ rounds ih =>
    rw [Reader.many]
    refine (pathChunk_holds hfree hblock).attempt.bind fun found _ _ _ hfound => ?_
    cases found with
    | none => exact .pure (List.forall_mem_nil _)
    | some command =>
      exact ih.bind fun _ _ _ _ hrest =>
        .pure (List.forall_mem_cons.2 ⟨hfound.1 command rfl, hrest⟩)

/-- A chunk has the property, if a wildcard has. -/
theorem chunk_holds
    (hwildcard : (wildcard s inner).Traces s.source anyError c fun command _ =>
      command.Everywhere p)
    (context : Context) :
    (chunk s inner context).Traces s.source anyError c fun command _ => command.Everywhere p := by
  rw [chunk]
  refine .firstOf fun reader hreader => ?_
  simp only [List.mem_cons, List.not_mem_nil, or_false] at hreader
  rcases hreader with rfl | rfl | rfl | rfl | rfl | rfl | rfl | rfl | rfl
  · exact commentBlock_holds hfree
  · exact probabilityBlock_holds hfree hblock
  · exact conditionBlock_holds hfree hblock
  · exact assignment_holds hfree hblock
  · exact access_holds hfree hblock false
  · exact wrapBlock_holds hfree hblock
  · exact variantBlock_holds hfree hblock
  · exact hwildcard
  · exact text_holds hfree context

/-- Chunks have it, by induction on the rounds. -/
theorem chunks_holds
    (hwildcard : ∀ c : Cursor, (wildcard s inner).Traces s.source anyError c fun command _ =>
      command.Everywhere p)
    (context : Context) (rounds : Nat) :
    (chunks s inner context rounds).Traces s.source anyError c fun read _ => ∀ command ∈ read,
      command.Everywhere p := by
  induction rounds generalizing c with
  | zero => exact .exhausted
  | succ rounds ih =>
    rw [chunks]
    refine skipComments_traces.bind fun _ place _ _ _ =>
      (chunk_holds hfree hblock (hwildcard place) context).attempt.bind fun found _ _ _ hfound => ?_
    cases found with
    | none => exact .pure (List.forall_mem_nil _)
    | some command =>
      exact ih.bind fun _ _ _ _ hrest =>
        .pure (List.forall_mem_cons.2 ⟨hfound.1 command rfl, hrest⟩)

end Free

/-! ## 2. Inline variables -/

/-- The variables that come of setting some, one after another, all but the one name that makes
no entry. -/
def setVariables {α : Type} (given inlined : List (Text × α)) : List (Text × α) :=
  (given.filter fun v => v.1 ≠ unboundName).foldl (fun inlined v =>
    setVariable v.1 v.2 inlined) inlined

/-- Variables are set one after another. -/
theorem setVariables_cons {α : Type} (v : Text × α) (given inlined : List (Text × α)) :
    setVariables (v :: given) inlined =
      setVariables given (if v.1 = unboundName then inlined else setVariable v.1 v.2 inlined) := by
  by_cases hname : v.1 = unboundName
  · simp [setVariables, hname]
  · simp [setVariables, hname]

/-- A property of names with their values that all given variables have, and those that are there.
-/
theorem forall_setVariables {α : Type} {p : Text → α → Prop} {given inlined : List (Text × α)}
    (hinlined : ∀ v ∈ inlined, p v.1 v.2) (hgiven : ∀ v ∈ given, p v.1 v.2) :
    ∀ v ∈ setVariables given inlined, p v.1 v.2 := by
  induction given generalizing inlined with
  | nil => exact hinlined
  | cons v given ih =>
    obtain ⟨hv, hgiven⟩ := List.forall_mem_cons.1 hgiven
    rw [setVariables_cons]
    split
    · exact ih hinlined hgiven
    · exact ih (forall_setVariable hinlined hv) hgiven

/-- A variable is given by a pair: under its name, with what the value was read as. -/
structure Inner.GivenBy (inner : Inner) (pair : Text) (v : Text × Command) : Prop where
  name : v.1 = (splitBinding pair).1
  isName : isVariableName v.1 = true
  value : ∃ base, inner.value base (splitBinding pair).2 = .ok v.2

/-- A variable that is given has a pair that gives it. -/
theorem Inner.exists_pair_of_given {inner : Inner} {pairs : List Text}
    {given : List (Text × Command)} (h : List.Forall₂ inner.GivenBy pairs given)
    {v : Text × Command} (hv : v ∈ given) :
    ∃ pair ∈ pairs, inner.GivenBy pair v := by
  induction h with
  | nil => cases hv
  | cons hfirst _ ih =>
    rcases List.mem_cons.1 hv with rfl | hv
    · exact ⟨_, List.mem_cons_self, hfirst⟩
    · obtain ⟨pair, hpair, hgiven⟩ := ih hv
      exact ⟨pair, List.mem_cons_of_mem _ hpair, hgiven⟩

/-- Inline variables are set one after another, one for each pair. -/
theorem exists_of_inlineVariables {s : Setting} {inner : Inner} {position index : Nat}
    {record after : InlineRecord} {pairs : List Text}
    (h : inlineVariables s inner position index record pairs = .ok after) :
    ∃ given, List.Forall₂ inner.GivenBy pairs given ∧
      after.entries = setVariables given record.entries := by
  induction pairs generalizing index record with
  | nil =>
    cases h
    exact ⟨[], .nil, rfl⟩
  | cons pair pairs ih =>
    rw [inlineVariables] at h
    dsimp only at h
    split at h
    · cases h
    · next hname =>
      cases hvalue : inner.value (s.base ++ [position, index]) (splitBinding pair).2 with
      | error error => rw [hvalue] at h; cases h
      | ok command =>
        rw [hvalue] at h
        dsimp only at h
        cases hset : record.set (splitBinding pair).1 command with
        | none => rw [hset] at h; cases h
        | some next =>
          rw [hset] at h
          obtain ⟨given, hgiven, hafter⟩ := ih h
          have hisName : isVariableName (splitBinding pair).1 = true := by simpa using hname
          refine ⟨((splitBinding pair).1, command) :: given,
            .cons ⟨rfl, hisName, _, hvalue⟩ hgiven, ?_⟩
          rw [hafter, setVariables_cons]
          -- the record takes an entry, unless it is given what to inherit from
          rcases InlineRecord.of_set_eq_some hset with ⟨hname, rfl⟩ | ⟨hname, -, rfl⟩
          · rw [if_pos hname]
          · rw [if_neg hname]

/-! ## 3. Wildcards -/

/-- What the production makes at a place: a wildcard under the label of the place, with the inline
variables that its bindings give. -/
structure WildcardMade (s : Setting) (inner : Inner) (start : Cursor) (command : Command) :
    Prop where
  made : ∃ sampling path bindings after given inlined,
    WildcardBlock s inner start sampling path bindings after ∧
    List.Forall₂ inner.GivenBy (pairsOf bindings) given ∧ inlined = setVariables given [] ∧
    Command.makeWildcard (s.label start) (.rendered (.ofList path)) inlined sampling = .ok command

section Production

variable {s : Setting} {inner : Inner} {c : Cursor} {p : Command → Prop}

/-- The wildcard itself and all that is in it, as far as the values of its inline variables have
the property. -/
theorem wildcard_holds (hfree : ∀ command : Command, ¬command.IsWildcard → p command)
    (hblock : ∀ c : Cursor, inner.block.Traces s.source anyError c fun command _ =>
      command.Everywhere p)
    (hmade : ∀ command, WildcardMade s inner c command → p command)
    (hvalue : ∀ content pair base command, Parenthesized s.source content →
      pair ∈ Text.splitAt 44 content → inner.value base (splitBinding pair).2 = .ok command →
      command.Everywhere p) :
    (wildcard s inner).Traces s.source anyError c fun command _ => command.Everywhere p := by
  refine .of_in fun hin => ?_
  rw [wildcard]
  refine .bind_here ((Reader.Traces.accept _).bind fun _ opened _ _ hopened => ?_)
  -- besides what was read, the runs say which text the parts of the block were read from
  refine sampler_traces.run.bind fun sampling marked _ _ hmarked =>
    (many_holds hfree hblock _).run.bind fun path named hnamed _ hpath => ?_
  refine .ite (fun _ => (Reader.Traces.expect _).bind fun _ _ _ _ _ => .reject) fun _ =>
    .bind_here ?_
  refine bindings_traces.attempt.run.bind fun bindings closing _ _ hclosing =>
    (Reader.Traces.accept _).bind fun _ after _ _ hafter => ?_
  obtain ⟨hbindings, hclosing⟩ := hclosing
  have hblockRead : WildcardBlock s inner c sampling path bindings after :=
    ⟨hin, opened, marked, named, closing, hopened.1, hmarked.2, hpath.2, hclosing,
      fun content hcontent => (hbindings.1 content hcontent).2, hbindings.2, hafter.1⟩
  have hpairs : ∀ pair ∈ pairsOf bindings,
      ∃ content, Parenthesized s.source content ∧ pair ∈ Text.splitAt 44 content := by
    intro pair hpair
    cases bindings with
    | none => cases hpair
    | some content => exact ⟨content, (hbindings.1 content rfl).1, hpair⟩
  dsimp only
  -- the bindings are read at the place behind the path, with the text between the parentheses
  cases hinlined : inlineVariables s inner named.position 0 .empty
    ((bindings.map (Text.splitAt 44)).getD []) with
  | error error => exact .fail fun _ => trivial
  | ok record =>
    refine build_traces s.admits_anyError fun command hcommand => ?_
    obtain ⟨given, hgiven, hset⟩ := exists_of_inlineVariables hinlined
    refine .node command (hmade command ⟨_, _, _, _, _, _, hblockRead, hgiven, hset, hcommand⟩)
      fun part hpart => ?_
    obtain ⟨plain, rfl, hplain⟩ := Command.exists_of_makeWildcard hcommand
    rcases List.mem_append.1 hpart with hpart | hpart
    -- a part is the name, the chunks of the path joined, or the value of a binding
    · rcases hplain with rfl | ⟨text, -, rfl⟩
      · rw [List.mem_singleton.1 hpart]
        exact everywhere_joined hfree hpath.1
      · cases hpart
    · obtain ⟨v, hv, rfl⟩ := List.mem_map.1 hpart
      rw [hset] at hv
      refine forall_setVariables (p := fun _ command => command.Everywhere p)
        (List.forall_mem_nil _) (fun v hv => ?_) v hv
      obtain ⟨pair, hpair, hv⟩ := Inner.exists_pair_of_given hgiven hv
      obtain ⟨content, hcontent, hpair⟩ := hpairs pair hpair
      obtain ⟨base, hread⟩ := hv.value
      exact hvalue content pair base v.2 hcontent hpair hread

end Production

/-! ## 4. Whole sources -/

/-- If the node is a wildcard, it was made at a place of the source or of a value that stands in it.
-/
def Sited (g : Grammar) (origin : Origin) (source : Text) (node : Command) : Prop :=
  node.IsWildcard → ∃ text, Contains source text ∧
    ∃ depth base start,
      WildcardMade ⟨g, origin, base, text⟩ (innerAt g origin depth base text) start node

/-- What stands in the value of an inline variable stands in the source around it. -/
theorem Sited.of_value {g : Grammar} {origin : Origin} {source content pair : Text} {node : Command}
    (hcontent : Parenthesized source content) (hpair : pair ∈ Text.splitAt 44 content)
    (h : Sited g origin (splitBinding pair).2 node) : Sited g origin source node := by
  intro hwildcard
  obtain ⟨text, hcontains, hmade⟩ := h hwildcard
  obtain ⟨hclosed, before, after, rfl⟩ := hcontent
  exact ⟨text, .value before content after pair text hclosed hpair hcontains, hmade⟩

/-- In a whole text every node is sited, if those that its reader gives are. -/
theorem everywhere_sited_of_whole {g : Grammar} {origin : Origin} {reader : Text → Reader Command}
    {source : Text}
    (hreader : (reader source).Traces source anyError (.start source) fun command _ =>
      command.Everywhere (Sited g origin source))
    {command : Command} (h : whole g reader source = .ok command) :
    command.Everywhere (Sited g origin source) := by
  rcases literal_or_accepted_of_whole h with rfl | ⟨c, f, hread⟩
  · exact everywhere_of_not_isWildcard (fun _ hnot hwildcard => absurd hwildcard hnot) id
      (List.forall_mem_nil _)
  · have hrun := hreader (.start source) ⟨0, []⟩ (Nat.zero_le _)
    rw [hread] at hrun
    exact hrun.2.2.2

/-- The chunks of a template or of a block. The induction is on the depth. -/
theorem chunksWith_sited {g : Grammar} (origin : Origin) (depth : Nat)
    (base : List Nat) (context : Context) (source : Text) (c : Cursor) :
    (chunksWith g origin depth base context source).Traces source anyError c fun command _ =>
      command.Everywhere (Sited g origin source) := by
  induction depth generalizing base context source c with
  | zero => exact .exhausted
  | succ depth ih =>
    -- only wildcards have something to show, and each is the one read at its place
    have hfree : ∀ command : Command, ¬command.IsWildcard → Sited g origin source command :=
      fun _ hnot hwildcard => absurd hwildcard hnot
    have hwildcard (place : Cursor) :
        (wildcard ⟨g, origin, base, source⟩ (innerAt g origin depth base source)).Traces source
          anyError place fun command _ => command.Everywhere (Sited g origin source) := by
      refine wildcard_holds hfree (ih base .block source)
        (fun command hmade _ => ⟨source, .itself source, depth, base, place, hmade⟩) ?_
      intro content pair base' command hcontent hpair hvalue
      exact (everywhere_sited_of_whole (ih base' .prompt _ _) hvalue).mono fun _ =>
        .of_value hcontent hpair
    rw [chunksWith]
    refine .bind_here
      ((chunks_holds (s := ⟨g, origin, base, source⟩) hfree ?_ hwildcard context _).bind
      fun read _ _ _ hread => .pure (everywhere_joined hfree hread))
    exact ih base .block source

/-- Every wildcard of a tree was made at a place of what was read. -/
theorem everywhere_sited {g : Grammar} {origin : Origin} {source : Text}
    {tree : Command} (h : g.parse origin source = .ok tree) :
    tree.Everywhere (Sited g origin source) :=
  everywhere_sited_of_whole (chunksWith_sited origin _ [] .prompt source _) h

end Template

end PromptTemplate
