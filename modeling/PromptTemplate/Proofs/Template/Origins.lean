/-
`Origins.lean` -- what the nodes of a tree show of where it was read.

Every label that the reader makes names the origin that it was given, and every weight that it
makes is a number of the grid (`Command.ReadFrom`). So trees of different origins share no label,
and a tree that was read can be drawn from. Nothing is said here of where and how reading ends:
`Reader.Gives` only follows the values that come out, and each production is one lemma over what
its two recursive calls give.
-/
import PromptTemplate.Proofs.Command.Labels
import PromptTemplate.Proofs.Command.Weights
import PromptTemplate.Proofs.Template.Productions

set_option autoImplicit false

namespace PromptTemplate

/-! ## 1. Nodes -/

namespace Command

/-- A node as it can be read from an origin. -/
structure ReadFrom (origin : Origin) (command : Command) : Prop where
  label : ∀ label, command.label? = some label → label.origin = origin
  weighed : command.Weighed

variable {origin : Origin} {p : Command → Prop}

/-- A node that does not choose shows nothing. -/
theorem ReadFrom.of_unlabelled {command : Command} (h : command.label? = none) :
    command.ReadFrom origin := by
  refine ⟨fun label hlabel => ?_, ?_⟩
  · rw [h] at hlabel
    cases hlabel
  · cases command with
    | variant => cases h
    | _ => trivial

/-- A tree whose root does not choose. -/
theorem everywhere_of_unlabelled {command : Command} (h : command.label? = none)
    (hparts : ∀ part ∈ command.parts, part.Everywhere (ReadFrom origin)) :
    command.Everywhere (ReadFrom origin) := .node command (.of_unlabelled h) hparts

/-- A literal has no label. -/
theorem everywhere_literal (text : Text) : (Command.literal text).Everywhere (ReadFrom origin) :=
  everywhere_of_unlabelled rfl nofun

/-! ### Commands put together -/

section Joined

variable (hliteral : ∀ text, p (.literal text)) (hsequence : ∀ children, p (.sequence children))
include hliteral hsequence

/-- What is left of an operand has no nodes but its own. -/
theorem everywhere_trimOperand {command : Command} (h : command.Everywhere p) :
    (Template.trimOperand command).Everywhere p := by
  -- trimming touches the last literal of a sequence, and may build it anew from what is left
  cases command with
  | literal text => exact .node _ (hliteral _) (List.forall_mem_nil _)
  | sequence children =>
    rw [Template.trimOperand]
    split
    · refine everywhere_ofList hliteral hsequence fun part hmem => ?_
      rcases List.mem_append.1 hmem with hmem | hmem
      · exact h.of_part (List.mem_of_mem_dropLast hmem)
      · split at hmem
        · cases hmem
        · rw [List.mem_singleton.1 hmem]
          exact .node _ (hliteral _) (List.forall_mem_nil _)
    · exact h
  | _ => exact h

end Joined

/-! ### What the constructors make -/

/-- A tree whose root chooses, under a label of the origin. -/
theorem everywhere_of_label {command : Command} {label : Label} (h : command.label? = some label)
    (hlabel : label.origin = origin) (hweighed : command.Weighed)
    (hparts : ∀ part ∈ command.parts, part.Everywhere (ReadFrom origin)) :
    command.Everywhere (ReadFrom origin) := by
  refine .node command ⟨fun other hother => ?_, hweighed⟩ hparts
  rw [h] at hother
  cases hother
  exact hlabel

/-- A variant shows the origin of its label, and its weights were rounded. -/
theorem everywhere_makeVariant {label : Label} (hlabel : label.origin = origin)
    {options : List (Option Number × Command)} {settings : VariantSettings} {command : Command}
    (hweights : ∀ option ∈ options, ∀ n, option.1 = some n → n.Rounded)
    (hvalues : ∀ option ∈ options, option.2.Everywhere (ReadFrom origin))
    (h : makeVariant label options settings = .ok command) :
    command.Everywhere (ReadFrom origin) := by
  have hweighed := makeVariant_weighed hweights h
  obtain ⟨checked, least, most, hchecked, rfl⟩ := exists_of_makeVariant h
  refine everywhere_of_label rfl hlabel hweighed fun part hmem => ?_
  rw [parts, map_value_of_checkOptions hchecked] at hmem
  obtain ⟨option, hoption, rfl⟩ := List.mem_map.1 hmem
  exact hvalues option hoption

/-- A part with a chance shows the origin of its label. -/
theorem everywhere_makeProbability {label : Label} (hlabel : label.origin = origin)
    {chance : Number} {value : Command} (hvalue : value.Everywhere (ReadFrom origin))
    {sampling : Option Sampling} {command : Command}
    (h : makeProbability label chance value sampling = .ok command) :
    command.Everywhere (ReadFrom origin) := by
  obtain ⟨q, rfl⟩ := exists_of_makeProbability h
  exact everywhere_of_label rfl hlabel trivial (List.forall_mem_singleton.2 hvalue)

/-- A condition has the nodes of its values. -/
theorem everywhere_makeCondition {branches : List BranchInput}
    (hbranches : ∀ branch ∈ branches, branch.value.Everywhere (ReadFrom origin))
    {otherwise : Command} (hotherwise : otherwise.Everywhere (ReadFrom origin)) {command : Command}
    (h : makeCondition branches otherwise = .ok command) :
    command.Everywhere (ReadFrom origin) := by
  obtain ⟨compiled, hvalues, rfl⟩ := exists_of_makeCondition h
  refine everywhere_of_unlabelled rfl fun part hmem => ?_
  rw [parts, hvalues] at hmem
  rcases List.mem_append.1 hmem with hmem | hmem
  · obtain ⟨branch, hbranch, rfl⟩ := List.mem_map.1 hmem
    exact hbranches branch hbranch
  · rw [List.mem_singleton.1 hmem]
    exact hotherwise

/-- Reading a variable has the nodes of its default. -/
theorem everywhere_makeAccess {name : Text} {fallback : Option Command}
    (hfallback : ∀ command ∈ fallback, command.Everywhere (ReadFrom origin)) {command : Command}
    (h : makeAccess name fallback = .ok command) : command.Everywhere (ReadFrom origin) := by
  rw [eq_of_makeAccess h]
  exact everywhere_of_unlabelled rfl fun part hmem => hfallback part (Option.mem_toList.1 hmem)

/-- An assignment has the nodes of its value. -/
theorem everywhere_makeAssignment {name : Text} {value : Command}
    (hvalue : value.Everywhere (ReadFrom origin)) {overwrite immediate : Bool} {command : Command}
    (h : makeAssignment name value overwrite immediate = .ok command) :
    command.Everywhere (ReadFrom origin) := by
  rw [eq_of_makeAssignment h]
  exact everywhere_of_unlabelled rfl (List.forall_mem_singleton.2 hvalue)

/-- A wildcard shows the origin of its label, and has the nodes of its name and of its inline
variables. -/
theorem everywhere_makeWildcard {label : Label} (hlabel : label.origin = origin) {name : Command}
    (hname : name.Everywhere (ReadFrom origin)) {inlined : List (Text × Command)}
    (hinlined : ∀ v ∈ inlined, v.2.Everywhere (ReadFrom origin)) {sampling : Option Sampling}
    {command : Command} (h : makeWildcard label (.rendered name) inlined sampling = .ok command) :
    command.Everywhere (ReadFrom origin) := by
  obtain ⟨plain, rfl, hplain⟩ := exists_of_makeWildcard h
  refine everywhere_of_label rfl hlabel trivial fun part hmem => ?_
  rcases List.mem_append.1 hmem with hmem | hmem
  · rcases hplain with rfl | ⟨text, rfl, rfl⟩
    · rw [List.mem_singleton.1 hmem]
      exact hname
    · cases hmem
  · obtain ⟨v, hv, rfl⟩ := List.mem_map.1 hmem
    exact hinlined v hv

end Command

/-! ## 2. Values that come out -/

/-- Every value that the reader accepts has the property, wherever it begins. -/
def Reader.Gives {α : Type} (p : α → Prop) (reader : Reader α) : Prop :=
  ∀ c f value after f', reader c f = .accepted value after f' → p value

namespace Reader.Gives

variable {α β : Type} {p q : α → Prop} {reader : Reader α}

/-- A value that is given at once. -/
theorem pure {value : α} (h : p value) : (Pure.pure value : Reader α).Gives p := by
  intro c f value' after f' hrun
  cases hrun
  exact h

/-- The value of a reader that goes on by another one. -/
theorem bind (h : reader.Gives q) {r : β → Prop} {next : α → Reader β}
    (hnext : ∀ value, q value → (next value).Gives r) : (reader >>= next).Gives r := by
  intro c f value after f' hrun
  simp only [Bind.bind, andThen] at hrun
  cases hfirst : reader c f with
  | accepted first between f'' =>
    rw [hfirst] at hrun
    exact hnext first (h c f first between f'' hfirst) _ _ _ _ _ hrun
  | rejected f'' => rw [hfirst] at hrun; cases hrun
  | failed error => rw [hfirst] at hrun; cases hrun

/-- What comes first is of no account. -/
theorem skip {r : β → Prop} {next : α → Reader β} (hnext : ∀ value, (next value).Gives r) :
    (reader >>= next).Gives r :=
  bind (q := fun _ => True) (fun _ _ _ _ _ _ => trivial) fun value _ => hnext value

/-- Nothing comes out of a reader that does not take the text. -/
theorem reject : (Reader.reject : Reader α).Gives p := fun _ _ _ _ _ hrun => nomatch hrun

/-- Nothing comes out of an error. -/
theorem fail (error : ParseError) : (Reader.fail error : Reader α).Gives p :=
  fun _ _ _ _ _ hrun => nomatch hrun

/-- What an attempt finds, the reader gave. -/
theorem attempt (h : reader.Gives p) :
    (Reader.attempt reader).Gives fun found => ∀ value, found = some value → p value := by
  intro c f found after f' hrun value hvalue
  unfold Reader.attempt at hrun
  cases hread : reader c f with
  | accepted first between f'' =>
    rw [hread] at hrun
    cases hrun
    cases hvalue
    exact h c f _ _ _ hread
  | rejected f'' => rw [hread] at hrun; cases hrun; cases hvalue
  | failed error => rw [hread] at hrun; cases hrun

/-- What the first of several readers gives, one of them gave. -/
theorem firstOf {readers : List (Reader α)} (h : ∀ reader ∈ readers, reader.Gives p) :
    (Reader.firstOf readers).Gives p := by
  induction readers with
  | nil => exact reject
  | cons reader readers ih =>
    -- readers that were rejected before gave nothing, so the value is that of the one that accepts
    obtain ⟨hreader, hreaders⟩ := List.forall_mem_cons.1 h
    intro c f value after f' hrun
    simp only [Reader.firstOf] at hrun
    cases hread : reader c f with
    | accepted first between f'' =>
      rw [hread] at hrun
      cases hrun
      exact hreader c f value _ _ hread
    | rejected f'' =>
      rw [hread] at hrun
      exact ih hreaders c f'' value after f' hrun
    | failed error => rw [hread] at hrun; cases hrun

/-- What repeating gives, each round gave; by induction on the rounds. -/
theorem many (h : reader.Gives p) (rounds : Nat) :
    (Reader.many reader rounds).Gives fun values => ∀ value ∈ values, p value := by
  induction rounds with
  | zero => exact fail _
  | succ rounds ih =>
    rw [Reader.many]
    refine h.attempt.bind fun found hfound => ?_
    cases found with
    | none => exact pure fun _ hmem => by cases hmem
    | some value =>
      exact ih.bind fun rest hrest => pure (List.forall_mem_cons.2 ⟨hfound value rfl, hrest⟩)

end Reader.Gives

/-! ## 3. Productions -/

namespace Template

open Reader (Gives)

variable {s : Setting} {inner : Inner}

/-- A tree whose nodes are read from the origin. -/
abbrev Read (origin : Origin) (command : Command) : Prop :=
  command.Everywhere (Command.ReadFrom origin)

/-- The recursive calls give such trees. -/
structure Inner.Reads (origin : Origin) (inner : Inner) : Prop where
  block : inner.block.Gives (Read origin)
  value : ∀ base value command, inner.value base value = .ok command → Read origin command

/-- Commands put together have the nodes of each. -/
theorem ofList_read {origin : Origin} {commands : List Command}
    (h : ∀ command ∈ commands, Read origin command) :
    Read origin (.ofList commands) :=
  Command.everywhere_ofList (fun _ => .of_unlabelled rfl) (fun _ => .of_unlabelled rfl) h

/-- What is built, the constructor made. -/
theorem build_gives {origin : Origin} {made : Except BuildError Command}
    (h : ∀ command, made = .ok command → Read origin command) :
    (build made).Gives (Read origin) := by
  unfold build
  cases made with
  | ok command => exact .pure (h command rfl)
  | error error => exact .fail _

/-- Text is a literal. -/
theorem text_gives (origin : Origin) (context : Context) :
    (text s context).Gives (Read origin) := by
  refine .skip fun c => .skip fun runs => ?_
  split
  · exact .skip fun _ => .reject
  · exact .pure (Command.everywhere_literal _)

/-- A decimal is rounded when it is read. -/
theorem real_gives : real.Gives fun digits => (Number.ofText digits).Rounded := by
  intro c f digits after f' hrun
  unfold real at hrun
  cases hsplit : splitReal? c.rest with
  | none => rw [hsplit] at hrun; cases hrun
  | some parts =>
    rw [hsplit] at hrun
    cases hrun
    obtain ⟨mantissa, exponent, hscale⟩ := ofText_of_splitReal hsplit
    rw [hscale]
    exact Decimal.scale_rounded mantissa exponent

/-- A comment has no label. -/
theorem commentBlock_gives (origin : Origin) : (commentBlock s).Gives (Read origin) := by
  refine .skip fun _ => .skip fun _ => .skip fun starred => ?_
  split
  · exact .skip fun _ => .skip fun _ => .skip fun _ => .skip fun _ => .skip fun _ =>
      .pure (Command.everywhere_of_unlabelled rfl nofun)
  · exact .reject

section Blocks

variable (hinner : inner.Reads s.origin)
include hinner

/-- An operand has the nodes that were read in it. -/
theorem operand_gives : (operand inner).Gives (Read s.origin) :=
  .skip fun _ => hinner.block.bind fun _ hread => .pure
    (Command.everywhere_trimOperand (fun _ => .of_unlabelled rfl) (fun _ =>
      .of_unlabelled rfl) hread)

/-- A part with a chance is labelled at the place where it begins. -/
theorem probabilityBlock_gives : (probabilityBlock s inner).Gives (Read s.origin) := by
  refine .skip fun start => .skip fun _ => .skip fun _ => .skip fun chance => ?_
  cases chance with
  | none => exact .skip fun _ => .reject
  | some chance =>
    refine .skip fun _ => (operand_gives hinner).bind fun value hvalue => .skip fun _ =>
      .skip fun _ => ?_
    exact build_gives fun command => Command.everywhere_makeProbability rfl hvalue

/-- A branch of a condition has the nodes of its value. -/
theorem branch_gives : (branch s inner).Gives fun input => Read s.origin input.value :=
  .skip fun _ => (operand_gives hinner).bind fun _ hvalue => .pure hvalue

/-- Further branches, by induction on the rounds. -/
theorem moreBranches_gives (rounds : Nat) : (moreBranches s inner rounds).Gives fun read =>
    (∀ branch ∈ read.1, Read s.origin branch.value) ∧ Read s.origin read.2 := by
  induction rounds with
  | zero => exact .fail _
  | succ rounds ih =>
    refine .skip fun barred => ?_
    split
    · refine (Gives.attempt (.skip fun _ => branch_gives hinner)).bind fun next hnext => ?_
      cases next with
      | none => exact (operand_gives hinner).bind fun _ hvalue => .pure ⟨nofun, hvalue⟩
      | some next =>
        exact ih.bind fun rest hrest =>
          .pure ⟨List.forall_mem_cons.2 ⟨hnext next rfl, hrest.1⟩, hrest.2⟩
    · exact .pure ⟨nofun, Command.everywhere_literal []⟩

/-- A condition has the nodes of its branches and of the value that is left. -/
theorem conditionBlock_gives : (conditionBlock s inner).Gives (Read s.origin) := by
  refine .skip fun _ => .skip fun start => (branch_gives hinner).bind fun first hfirst => ?_
  refine (moreBranches_gives hinner _).bind fun rest hrest => .skip fun _ => .skip fun _ => ?_
  split
  · next command hmade =>
    exact .pure (Command.everywhere_makeCondition (List.forall_mem_cons.2 ⟨hfirst, hrest.1⟩) hrest.2
      hmade)
  · exact .fail _

/-- The weight of an option is rounded, and its value has the nodes that were read in it. -/
theorem option_gives : (option s inner).Gives fun read =>
    (∀ n, read.1 = some n → n.Rounded) ∧ Read s.origin read.2 := by
  refine .skip fun _ => .skip fun start => ?_
  have hweight : (weight s start).Gives Number.Rounded := by
    refine real_gives.bind fun digits hdigits => .skip fun weighted => ?_
    split
    · dsimp only
      split
      · exact .pure hdigits
      · exact .fail _
    · exact .reject
  exact hweight.attempt.bind fun weight hweight =>
    (operand_gives hinner).bind fun value hvalue => .pure ⟨hweight, hvalue⟩

/-- Further options, by induction on the rounds. -/
theorem moreOptions_gives (rounds : Nat) : (moreOptions s inner rounds).Gives fun read =>
    ∀ option ∈ read, (∀ n, option.1 = some n → n.Rounded) ∧ Read s.origin option.2 := by
  induction rounds with
  | zero => exact .fail _
  | succ rounds ih =>
    refine .skip fun barred => ?_
    split
    · exact (option_gives hinner).bind fun next hnext =>
        ih.bind fun rest hrest => .pure (List.forall_mem_cons.2 ⟨hnext, hrest⟩)
    · exact .pure nofun

/-- A variant is labelled at the place where it begins. -/
theorem variantBlock_gives : (variantBlock s inner).Gives (Read s.origin) := by
  refine .skip fun start => .skip fun _ => .skip fun _ => .skip fun sampling =>
    .skip fun declared => ?_
  refine (option_gives hinner).bind fun first hfirst =>
    (moreOptions_gives hinner _).bind fun rest hrest => .skip fun _ => .skip fun closed => ?_
  have hoptions : ∀ option ∈ first :: rest,
      (∀ n, option.1 = some n → n.Rounded) ∧ Read s.origin option.2 :=
    List.forall_mem_cons.2 ⟨hfirst, hrest⟩
  cases closed with
  | none => exact .skip fun _ => .reject
  | some _ =>
    exact build_gives fun command => Command.everywhere_makeVariant rfl
      (fun option hmem => (hoptions option hmem).1) fun option hmem => (hoptions option hmem).2

/-- An assignment has the nodes of its value. -/
theorem assignment_gives : (assignment s inner).Gives (Read s.origin) := by
  refine .skip fun _ => .skip fun _ => .skip fun name => .skip fun _ => .skip fun preserve =>
    .skip fun _ => .skip fun immediate => ?_
  refine (operand_gives hinner).bind fun value hvalue => .skip fun _ => .skip fun _ => ?_
  exact build_gives fun command => Command.everywhere_makeAssignment hvalue

/-- Reading a variable has those of its default. -/
theorem access_gives (inPath : Bool) : (access s inner inPath).Gives (Read s.origin) := by
  -- without a fallback nothing is read, or the name itself inside of a path
  have hfallback : (fallback inner).Gives fun found =>
      ∀ command, found = some command → Read s.origin command := by
    refine .skip fun given => ?_
    split
    · refine (operand_gives hinner).bind fun value hvalue => .pure fun command hcommand => ?_
      cases hcommand
      exact hvalue
    · exact .pure nofun
  refine .skip fun _ => .skip fun _ => .skip fun name => .skip fun _ => ?_
  refine hfallback.bind fun fallback hfallback => .skip fun _ => .skip fun _ => ?_
  refine build_gives fun command => Command.everywhere_makeAccess fun value hvalue => ?_
  split at hvalue
  · cases hvalue
    cases fallback with
    | none => exact Command.everywhere_literal name
    | some command => exact hfallback command rfl
  · exact hfallback value hvalue

/-- A wrapping has those of both its parts. -/
theorem wrapBlock_gives : (wrapBlock s inner).Gives (Read s.origin) := by
  refine .skip fun _ => (operand_gives hinner).bind fun wrapper hwrapper => .skip fun _ =>
    .skip fun _ => ?_
  refine (operand_gives hinner).bind fun wrapped hwrapped => .skip fun _ => .skip fun _ => ?_
  exact .pure (Command.everywhere_of_unlabelled rfl
    (List.forall_mem_cons.2 ⟨hwrapper, List.forall_mem_singleton.2 hwrapped⟩))

/-- The values of inline variables are read under the origin of the source around them. -/
theorem inlineVariables_read (position index : Nat) {record : InlineRecord}
    (hrecord : ∀ v ∈ record.entries, Read s.origin v.2) {pairs : List Text} {after : InlineRecord}
    (h : inlineVariables s inner position index record pairs = .ok after) :
    ∀ v ∈ after.entries, Read s.origin v.2 := by
  -- one pair after another; an error ends the list, and so does a name that is refused
  induction pairs generalizing index record with
  | nil =>
    cases h
    exact hrecord
  | cons pair pairs ih =>
    rw [inlineVariables] at h
    dsimp only at h
    split at h
    · cases h
    · cases hvalue : inner.value (s.base ++ [position, index]) (splitBinding pair).2 with
      | error error => rw [hvalue] at h; cases h
      | ok command =>
        rw [hvalue] at h
        dsimp only at h
        cases hset : record.set (splitBinding pair).1 command with
        | none => rw [hset] at h; cases h
        | some next =>
          rw [hset] at h
          refine ih (index + 1) ?_ h
          exact InlineRecord.forall_set (p := fun _ command => Read s.origin command) hset hrecord
            (hinner.value _ _ command hvalue)

/-- A wildcard is labelled at the place where it begins. -/
theorem wildcard_gives : (wildcard s inner).Gives (Read s.origin) := by
  have hpart : (pathChunk s inner).Gives (Read s.origin) := by
    refine .firstOf (List.forall_mem_cons.2 ⟨access_gives hinner true, ?_⟩)
    exact List.forall_mem_cons.2 ⟨variantBlock_gives hinner,
      List.forall_mem_singleton.2 (text_gives s.origin .path)⟩
  refine .skip fun start => .skip fun _ => .skip fun sampling => ?_
  refine (hpart.many _).bind fun path hpath => ?_
  split
  · exact .skip fun _ => .reject
  · refine .skip fun place => .skip fun content => .skip fun _ => ?_
    dsimp only
    split
    · exact .fail _
    · next record hinlined =>
      have hempty : ∀ v ∈ InlineRecord.empty.entries, Read s.origin v.2 := nofun
      exact build_gives fun command => Command.everywhere_makeWildcard rfl
        (ofList_read hpath) (inlineVariables_read hinner _ 0 hempty hinlined)

/-- A chunk is one of the productions. -/
theorem chunk_gives (context : Context) : (chunk s inner context).Gives (Read s.origin) := by
  refine .firstOf fun reader hreader => ?_
  simp only [List.mem_cons, List.not_mem_nil, or_false] at hreader
  rcases hreader with rfl | rfl | rfl | rfl | rfl | rfl | rfl | rfl | rfl
  · exact commentBlock_gives s.origin
  · exact probabilityBlock_gives hinner
  · exact conditionBlock_gives hinner
  · exact assignment_gives hinner
  · exact access_gives hinner false
  · exact wrapBlock_gives hinner
  · exact variantBlock_gives hinner
  · exact wildcard_gives hinner
  · exact text_gives s.origin context

/-- Chunks, by induction on the rounds. -/
theorem chunks_gives (context : Context) (rounds : Nat) :
    (chunks s inner context rounds).Gives fun read => ∀ command ∈ read, Read s.origin command := by
  induction rounds with
  | zero => exact .fail _
  | succ rounds ih =>
    refine .skip fun _ => (chunk_gives hinner context).attempt.bind fun next hnext => ?_
    cases next with
    | none => exact .pure nofun
    | some next =>
      exact ih.bind fun rest hrest => .pure (List.forall_mem_cons.2 ⟨hnext next rfl, hrest⟩)

end Blocks

/-! ## 4. Whole templates -/

/-- A whole text is a literal, or what its reader gives. -/
theorem whole_read {g : Grammar} {origin : Origin} {reader : Text → Reader Command}
    (hreader : ∀ source, (reader source).Gives (Read origin)) {source : Text} {command : Command}
    (h : whole g reader source = .ok command) : Read origin command := by
  rcases literal_or_accepted_of_whole h with rfl | ⟨c, f, hrun⟩
  · exact Command.everywhere_literal source
  · exact hreader source _ _ _ _ _ hrun

/-- The reader at every depth gives such nodes; the induction is on the depth. -/
theorem chunksWith_gives (g : Grammar) (origin : Origin) (depth : Nat) (base : List Nat)
    (context : Context) (source : Text) :
    (chunksWith g origin depth base context source).Gives (Read origin) := by
  induction depth generalizing base context source with
  | zero => exact .fail _
  | succ depth ih =>
    refine .skip fun c => ?_
    have hinner : Inner.Reads origin ⟨chunksWith g origin depth base .block source,
        fun base value => whole g (chunksWith g origin depth base .prompt) value⟩ :=
      ⟨ih base .block source, fun base value command => whole_read (ih base .prompt)⟩
    exact (chunks_gives (s := ⟨g, origin, base, source⟩) hinner context _).bind fun read hread =>
      .pure (ofList_read hread)

end Template

/-- **Every node of a tree shows where it was read**: its label, if it has one, names the origin,
and its weights are numbers of the grid. -/
theorem Grammar.parse_readFrom {g : Grammar} {origin : Origin} {source : Text} {tree : Command}
    (h : g.parse origin source = .ok tree) : tree.Everywhere (Command.ReadFrom origin) :=
  Template.whole_read (Template.chunksWith_gives g origin _ [] .prompt) h

/-- All labels of a tree name the origin of its nodes. -/
theorem Command.Everywhere.origin_eq {origin : Origin} {command : Command}
    (h : command.Everywhere (Command.ReadFrom origin)) :
    ∀ label ∈ command.labels, label.origin = origin := by
  induction h with
  | node command here _ ih =>
    intro label hlabel
    rw [Command.labels_eq] at hlabel
    rcases List.mem_append.1 hlabel with hlabel | hlabel
    · exact here.label label (Option.mem_toList.1 hlabel)
    · obtain ⟨part, hmem, hlabel⟩ := List.mem_flatMap.1 hlabel
      exact ih part hmem label hlabel

end PromptTemplate
