/-
`Places.lean` -- where each production of the template reader goes.

Each production traces its source: what it makes has its labels between the place where it
began and the place where it ended (`Spans`), and what it fails with is an error at a place
of the source, a refusal, or the error of reading the value of an inline variable, which
stands in the bindings of a wildcard (`Reached`). As in `Productions.lean` there is one lemma
for a production, over what is assumed of the two recursive calls (`Inner.Tracing`). The
opening delimiter, which is not empty, is what parts the label of a block from the labels
in it.
-/
import PromptTemplate.Proofs.Command.Labels
import PromptTemplate.Proofs.Template.Productions
import PromptTemplate.Proofs.Template.Traces

set_option autoImplicit false

namespace PromptTemplate.Template

/-! ## 1. What the productions are over -/

/-- The labels of the command stand between the two places. -/
def Spans (s : Setting) (c : Cursor) (command : Command) (after : Cursor) : Prop :=
  Label.Spread s.base c.position after.position command.labels

/-- What stands between two parentheses of the source, without a closing one in it. -/
def Parenthesized (source content : Text) : Prop :=
  unit ')' ∉ content ∧ ∃ before after, source = before ++ units "(" ++ content ++ units ")" ++ after

/-- Behind blanks the text begins with bindings in parentheses, and goes on with the rest. -/
structure Bracketed (t content rest : Text) : Prop where
  closed : unit ')' ∉ content
  ne_nil : content ≠ []
  stands : t.dropWhile CodeUnit.isBlank = units "(" ++ content ++ units ")" ++ rest

/-- The pairs in the bindings of a wildcard, if it has any. -/
def pairsOf (bindings : Option Text) : List Text := (bindings.map (Text.splitAt 44)).getD []

/-- A wildcard stands between two places of a source: its mark, the marker of a method, a path, and
behind the path the mark again, with bindings in parentheses before it or not. -/
structure WildcardBlock (s : Setting) (inner : Inner) (start : Cursor) (sampling : Option Sampling)
    (path : List Command) (bindings : Option Text) (after : Cursor) : Prop where
  inside : start.In s.source
  stands : ∃ opened marked named closing : Cursor,
    start.rest = s.grammar.wildcardWrap ++ opened.rest ∧
    (∃ f f', sampler opened f = .accepted sampling marked f') ∧
    (∃ f f', Reader.many (pathChunk s inner) (start.rest.length + 1) marked f =
      .accepted path named f') ∧
    (∃ f f', Reader.attempt Template.bindings named f = .accepted bindings closing f') ∧
    (∀ content, bindings = some content → Bracketed named.rest content closing.rest) ∧
    (bindings = none → closing = named) ∧
    closing.rest = s.grammar.wildcardWrap ++ after.rest

/-- Reading came to this pair: it stands in the bindings of a wildcard of the source, and the
pairs before it have names of variables and values that are read. -/
structure Reached (s : Setting) (inner : Inner) (pair : Text) : Prop where
  block : ∃ start sampling path content after before behind,
    WildcardBlock s inner start sampling path (some content) after ∧
      Text.splitAt 44 content = before ++ pair :: behind ∧
      ∀ other ∈ before, isVariableName (splitBinding other).1 = true ∧
        ∃ base command, inner.value base (splitBinding other).2 = .ok command
  parenthesized : ∃ content, Parenthesized s.source content ∧ pair ∈ Text.splitAt 44 content

/-- The errors of a kind have in them those that a production fails with itself: those at a
place of the source, refusals, and names that a record refuses. A record refuses a name only
behind the one name that makes no entry, so that stands in the source. -/
structure Setting.Admits (s : Setting) (q : ParseError → Prop) : Prop where
  located : ∀ e : SyntaxError, e.LocatedIn s.source → q (.malformed e)
  refused : ∀ cause, q (.refused cause)
  readOnly : ∀ name record, unboundName <:+: s.source → q (.readOnly name record)

/-- The recursive calls trace their sources, and the errors of the values that reading came to
are of the kind too. -/
structure Inner.Tracing (s : Setting) (q : ParseError → Prop) (inner : Inner) : Prop
    extends s.Admits q where
  block : ∀ c : Cursor, inner.block.Traces s.source q c (Spans s c)
  value : ∀ base value command, inner.value base value = .ok command →
    Label.Spread base 0 (value.length + 1) command.labels
  raised : ∀ pair base error, Reached s inner pair → isVariableName (splitBinding pair).1 = true →
    inner.value base (splitBinding pair).2 = .error error → error ≠ .exhausted → q error

variable {s : Setting} {inner : Inner} {c : Cursor} {q : ParseError → Prop}

/-- An error at a place of the source is of the kind, and nothing is read. -/
theorem failAt_traces {α : Type} (hq : s.Admits q) {position : Nat} {fault : SyntaxFault}
    {post : α → Cursor → Prop} (hposition : c.In s.source → position ≤ s.source.length)
    (hfault : ∀ expected found, fault ≠ .unexpected expected found) :
    (failAt s position fault).Traces s.source q c post :=
  .fail fun hc => hq.located _ (.ofPosition (hposition hc) fun expected found h =>
    absurd h (hfault expected found))

/-- What is built is what the constructor made, or there is an error of the kind. -/
theorem build_traces (hq : s.Admits q) {made : Except BuildError Command}
    {post : Command → Cursor → Prop} (h : ∀ command, made = .ok command → post command c) :
    (build made).Traces s.source q c post := by
  unfold build
  cases made with
  | ok command => exact .pure (h command rfl)
  | error cause => exact .fail fun _ => hq.refused cause

/-- Trimming an operand moves no label. -/
theorem labels_trimOperand (command : Command) : (trimOperand command).labels = command.labels := by
  cases command with
  | literal text => rw [trimOperand, Command.labels_literal, Command.labels_literal]
  | sequence children =>
    rw [trimOperand]
    split
    · next text hlast =>
      obtain ⟨init, rfl⟩ := List.getLast?_eq_some_iff.1 hlast
      rw [List.dropLast_concat, Command.labels_ofList, Command.labels_eq (.sequence _)]
      dsimp only [Command.parts, Command.label?]
      split <;> simp
    · rfl
  | _ => rfl

/-- An operand is read by the readers inside, and trimming moves no label. -/
theorem operand_traces (hinner : inner.Tracing s q) :
    (operand inner).Traces s.source q c (Spans s c) := by
  rw [operand]
  refine Reader.Traces.skipBlanks.bind fun _ next _ hle _ => ?_
  refine (hinner.block next).bind fun command after _ _ hread => .pure ?_
  rw [Spans, labels_trimOperand]
  exact hread.widen hle (Nat.le_refl _)

/-! ## 2. Comments, text and small parts -/

/-- Behind the comments the reader is still in the source, and not before them. -/
theorem afterComments_in {rounds : Nat} {source : Text} {after : Cursor} (hc : c.In source)
    (h : afterComments? rounds c = some after) :
    after.In source ∧ c.position ≤ after.position := by
  induction rounds generalizing c with
  | zero => cases h
  | succ rounds ih =>
    -- skipping goes forward, and never beyond the end
    have hskip : ∀ n, (c.advance n).In source ∧ c.position ≤ (c.advance n).position := fun n =>
      ⟨(hc.advance n).1, by rw [(hc.advance n).2]; omega⟩
    rw [afterComments?] at h
    split at h
    · obtain ⟨hin, hle⟩ := ih (hskip _).1 h
      exact ⟨hin, Nat.le_trans (hskip _).2 hle⟩
    · split at h
      · obtain ⟨hin, hle⟩ := ih (hskip _).1 h
        exact ⟨hin, Nat.le_trans (hskip _).2 hle⟩
      · cases h
        exact ⟨hc, Nat.le_refl _⟩

/-- Skipping comments notes no label. -/
theorem skipComments_traces {source : Text} :
    skipComments.Traces source q c fun _ _ => True := by
  intro hc f hf
  rw [skipComments]
  split
  · next after hafter =>
    obtain ⟨hin, hle⟩ := afterComments_in hc hafter
    exact ⟨hin, hle, hf, trivial⟩
  · exact fun hne => absurd rfl hne

/-- Text that is read is no label. -/
theorem textRuns_traces {source : Text} (g : Grammar) (context : Context) (rounds : Nat) :
    (textRuns g context rounds).Traces source q c fun _ _ => True := by
  induction rounds generalizing c with
  | zero => exact .exhausted
  | succ rounds ih =>
    rw [textRuns]
    refine .bind_here (.ite (fun _ => .pure trivial) fun _ => ?_)
    refine (Reader.Traces.moveOn _).bind fun _ next _ _ _ => .ite (fun _ => .pure trivial) fun _ =>
      ?_
    refine skipComments_traces.bind fun _ after _ _ _ => .ite (fun _ => ?_) fun _ => .pure trivial
    exact ih.bind fun _ _ _ _ _ => .pure trivial

/-- Text is a literal, which has no label. -/
theorem text_traces (context : Context) : (text s context).Traces s.source q c (Spans s c) := by
  rw [text]
  refine .bind_here ((textRuns_traces _ _ _).bind fun runs after _ _ _ => ?_)
  refine .ite (fun _ => (Reader.Traces.expect _).bind fun _ _ _ _ _ => .reject) fun _ => .pure ?_
  rw [Spans, Command.labels_literal]
  exact .nil

/-- A decimal has no label. -/
theorem real_traces {source : Text} : real.Traces source q c fun _ _ => True := by
  intro hc f hf
  rw [real]
  split
  · exact ⟨(hc.advance _).1, by rw [(hc.advance _).2]; omega, hf, trivial⟩
  · exact hf

/-- Neither has a marker. -/
theorem sampler_traces {source : Text} : sampler.Traces source q c fun _ _ => True := by
  intro hc f hf
  rw [sampler]
  split
  · exact ⟨(hc.advance _).1, by rw [(hc.advance _).2]; omega, hf, trivial⟩
  · exact ⟨hc, Nat.le_refl _, hf, trivial⟩

/-- Nor a name. -/
theorem variableName_traces {source : Text} : variableName.Traces source q c fun _ _ => True := by
  rw [variableName]
  refine .bind_here (.ite (fun _ => (Reader.Traces.takeWhile _).mono fun _ _ _ _ => trivial)
    fun _ => (Reader.Traces.expect _).bind fun _ _ _ _ _ => .reject)

/-- The label of a block stands where the block begins, before all labels in it. -/
theorem spread_block {opened : Nat} {high : Nat} {labels : List Label}
    (h : Label.Spread s.base opened high labels) (hopen : c.position < opened)
    (hle : opened ≤ high) :
    Label.Spread s.base c.position high (s.label c :: labels) := by
  have hown : Label.Spread s.base c.position (c.position + 1) [s.label c] :=
    .singleton s.base c.position s.origin
  exact hown.append (h.widen hopen (Nat.le_refl _)) (Nat.le_succ _) (by omega)

/-! ## 3. Blocks of variants -/

/-- A block with a star is a comment. -/
theorem commentBlock_comment :
    (commentBlock s).Traces s.source q c fun command _ =>
      ∃ content, command = .comment content := by
  rw [commentBlock]
  refine (Reader.Traces.accept _).bind fun _ _ _ _ _ =>
    Reader.Traces.skipBlanks.bind fun _ _ _ _ _ => ?_
  refine (Reader.Traces.tryAccept _).bind fun _ _ _ _ _ => .ite (fun _ => ?_) fun _ => .reject
  refine .bind_here ((Reader.Traces.moveOn _).bind fun _ _ _ _ _ => ?_)
  refine (Reader.Traces.accept _).bind fun _ _ _ _ _ =>
    Reader.Traces.skipBlanks.bind fun _ _ _ _ _ => ?_
  exact (Reader.Traces.accept _).bind fun _ _ _ _ _ => .pure ⟨_, rfl⟩

/-- A comment stands for itself, with no label. -/
theorem commentBlock_traces : (commentBlock s).Traces s.source q c (Spans s c) := by
  refine commentBlock_comment.mono ?_
  rintro _ after - ⟨content, rfl⟩
  rw [Spans, Command.labels_eq]
  exact .nil

/-- A part with a chance takes the place where it begins; its value stands behind it. -/
theorem probabilityBlock_traces (hopens : s.grammar.Opens) (hinner : inner.Tracing s q) :
    (probabilityBlock s inner).Traces s.source q c (Spans s c) := by
  rw [probabilityBlock]
  refine .bind_here ((Reader.Traces.accept _).bind fun _ opened _ _ hopened => ?_)
  -- the opening mark is not empty, so the label lies before what is inside
  have hopen := hopens.variantStart
  refine Reader.Traces.skipBlanks.bind fun _ _ _ hblanks _ =>
    real_traces.attempt.bind fun found next _ hnext _ => ?_
  cases found with
  | none => exact (Reader.Traces.expect _).bind fun _ _ _ _ _ => .reject
  | some chance =>
    refine (Reader.Traces.accept _).bind fun _ governed _ hgoverned _ =>
      (operand_traces hinner).bind fun value behind _ hbehind hvalue => ?_
    refine Reader.Traces.skipBlanks.bind fun _ _ _ hend _ =>
      (Reader.Traces.accept _).bind fun _ last _ hlast _ =>
        build_traces hinner.toAdmits fun command hmade => ?_
    rw [Spans, Command.labels_makeProbability hmade]
    exact spread_block (hvalue.widen (Nat.le_refl _) (by omega)) (by omega) (by omega)

/-- A pattern has no label; errors in it are located where it begins. -/
theorem pattern_traces {source : Text} : (pattern s).Traces source q c fun _ _ => True := by
  rw [pattern]
  refine .bind_here ?_
  split
  · exact .reject
  · refine (Reader.Traces.moveOn _).bind fun _ _ _ _ _ => ?_
    exact (Reader.Traces.accept _).bind fun _ _ _ _ _ => .ite (fun _ => .reject) fun _ =>
      .pure trivial

/-- The labels in the values of branches. -/
def branchLabels (branches : List Command.BranchInput) : List Label :=
  branches.flatMap fun branch => branch.value.labels

/-- A branch of a condition stands as its value does. -/
theorem branch_traces (hinner : inner.Tracing s q) :
    (branch s inner).Traces s.source q c fun branch after => Spans s c branch.value after := by
  rw [branch]
  refine pattern_traces.bind fun _ _ _ hle _ =>
    (operand_traces hinner).bind fun value after _ _ hvalue => .pure ?_
  exact hvalue.widen hle (Nat.le_refl _)

/-- Further branches stand one behind the other, by induction on the rounds. -/
theorem moreBranches_traces (hinner : inner.Tracing s q) (rounds : Nat) :
    (moreBranches s inner rounds).Traces s.source q c fun rest after =>
      Label.Spread s.base c.position after.position (branchLabels rest.1 ++ rest.2.labels) := by
  induction rounds generalizing c with
  | zero => exact .exhausted
  | succ rounds ih =>
    rw [moreBranches]
    refine (Reader.Traces.tryAccept _).bind fun _ next _ hnext _ => .ite (fun _ => ?_) fun _ => ?_
    -- blanks before a branch belong to it, which only widens the room of its labels
    · have hbranch : (do Reader.skipBlanks; branch s inner : Reader Command.BranchInput).Traces
          s.source q next fun branch after => Spans s next branch.value after :=
        Reader.Traces.skipBlanks.bind fun _ _ _ hle _ =>
          (branch_traces hinner).mono fun _ _ _ hbranch => hbranch.widen hle (Nat.le_refl _)
      refine hbranch.attempt.bind fun found after _ hafter hfound => ?_
      cases found with
      | none =>
        refine (operand_traces hinner).bind fun otherwise last _ _ hotherwise => .pure ?_
        exact hotherwise.widen (Nat.le_trans hnext hafter) (Nat.le_refl _)
      | some branch =>
        refine ih.bind fun rest last _ hlast hrest => .pure ?_
        have hfirst := (hfound.1 branch rfl).widen hnext (Nat.le_refl _)
        rw [branchLabels, List.flatMap_cons, List.append_assoc]
        exact hfirst.append hrest (Nat.le_trans hnext hafter) hlast
    · refine .pure ?_
      rw [Command.labels_literal]
      exact .nil

/-- The values of a condition stand one behind the other. -/
theorem conditionBlock_traces (hinner : inner.Tracing s q) :
    (conditionBlock s inner).Traces s.source q c (Spans s c) := by
  rw [conditionBlock]
  refine (Reader.Traces.accept _).bind fun _ opened hopened hopen _ => .bind_here ?_
  refine (branch_traces hinner).bind fun first next _ hnext hfirst =>
    (moreBranches_traces hinner _).bind fun rest behind _ hbehind hrest => ?_
  refine Reader.Traces.skipBlanks.bind fun _ _ _ hend _ =>
    (Reader.Traces.accept _).bind fun _ last _ hlast _ => ?_
  split
  · next command hmade =>
    refine .pure ?_
    -- the parts lie one behind the other, so their labels do not meet
    have hall := hfirst.append hrest hnext hbehind
    rw [Spans, Command.labels_makeCondition hmade, List.flatMap_cons, List.append_assoc]
    exact hall.widen hopen (by omega)
  · exact failAt_traces hinner.toAdmits (fun _ => hopened.position_le) fun _ _ h => by cases h

/-- Bounds have no label; too large ones are located where they begin. -/
theorem bounds_traces (hq : s.Admits q) : (bounds s).Traces s.source q c fun _ _ => True := by
  -- bounds hold no node, so it is enough that their readers go forward
  have hupper : ∀ lower (c : Cursor), (upperDigits lower).Traces s.source q c fun _ _ => True := by
    intro lower c
    rw [upperDigits]
    refine (Reader.Traces.tryAccept _).bind fun _ _ _ _ _ => .ite (fun _ => ?_) fun _ =>
      .pure trivial
    exact (Reader.Traces.takeWhile _).mono fun _ _ _ _ => trivial
  have hseparator : ∀ c : Cursor, (rawSeparator s).Traces s.source q c fun _ _ => True := by
    intro c
    rw [rawSeparator]
    refine (Reader.Traces.takeWhile _).bind fun _ _ _ _ _ => .ite (fun _ => .reject) fun _ => ?_
    exact (Reader.Traces.accept _).bind fun _ _ _ _ _ => .pure trivial
  rw [bounds]
  refine .bind_here ((Reader.Traces.takeWhile _).bind fun lower _ _ _ _ =>
    (hupper lower _).bind fun upper _ _ _ _ => .ite (fun _ => .reject) fun _ => ?_)
  refine (Reader.Traces.accept _).bind fun _ _ _ hle _ => .ite (fun _ => ?_) fun _ => ?_
  · refine failAt_traces hq (fun hc => ?_) fun _ _ h => by cases h
    have := hc.position_le
    omega
  · exact (hseparator _).attempt.bind fun _ _ _ _ _ => .pure trivial

/-- Neither has a weight; one that can not be used is located where the variant begins. -/
theorem weight_traces (hq : s.Admits q) {start : Cursor} (hstart : start.In s.source) :
    (weight s start).Traces s.source q c fun _ _ => True := by
  rw [weight]
  refine real_traces.bind fun _ _ _ _ _ => (Reader.Traces.tryAccept _).bind fun _ _ _ _ _ =>
    .ite (fun _ => ?_) fun _ => .reject
  dsimp only
  split
  · exact .pure trivial
  · exact failAt_traces hq (fun _ => hstart.position_le) fun _ _ h => by cases h

/-- An option stands as its value does. -/
theorem option_traces (hinner : inner.Tracing s q) :
    (option s inner).Traces s.source q c fun option after => Spans s c option.2 after := by
  rw [option]
  refine Reader.Traces.skipBlanks.bind fun _ start hstart hle _ => .bind_here ?_
  refine (weight_traces hinner.toAdmits hstart).attempt.bind fun _ next _ hnext _ =>
    (operand_traces hinner).bind fun value after _ _ hvalue => .pure ?_
  exact hvalue.widen (Nat.le_trans hle hnext) (Nat.le_refl _)

/-- The labels in the values of options. -/
def optionLabels (options : List (Option Number × Command)) : List Label :=
  options.flatMap fun option => option.2.labels

/-- Further options stand one behind the other, by induction on the rounds. -/
theorem moreOptions_traces (hinner : inner.Tracing s q) (rounds : Nat) :
    (moreOptions s inner rounds).Traces s.source q c fun rest after =>
      Label.Spread s.base c.position after.position (optionLabels rest) := by
  induction rounds generalizing c with
  | zero => exact .exhausted
  | succ rounds ih =>
    rw [moreOptions]
    refine (Reader.Traces.tryAccept _).bind fun _ next _ hnext _ => .ite (fun _ => ?_) fun _ =>
      .pure .nil
    refine (option_traces hinner).bind fun option after _ hafter hoption =>
      ih.bind fun rest last _ hlast hrest => .pure ?_
    exact (hoption.append hrest hafter hlast).widen hnext (Nat.le_refl _)

/-- A variant takes the place where it begins; its options stand behind it. -/
theorem variantBlock_traces (hopens : s.grammar.Opens) (hinner : inner.Tracing s q) :
    (variantBlock s inner).Traces s.source q c (Spans s c) := by
  rw [variantBlock]
  refine .bind_here ((Reader.Traces.accept _).bind fun _ opened _ _ hopened => ?_)
  have hopen := hopens.variantStart
  refine Reader.Traces.skipBlanks.bind fun _ _ _ hblanks _ =>
    sampler_traces.bind fun _ _ _ hmarked _ =>
    (bounds_traces hinner.toAdmits).attempt.bind fun declared next _ hnext _ => ?_
  refine (option_traces hinner).bind fun first behind _ hbehind hfirst =>
    (moreOptions_traces hinner _).bind fun rest after _ hafter hrest => ?_
  refine Reader.Traces.skipBlanks.bind fun _ _ _ hend _ =>
    (Reader.Traces.accept _).attempt.bind fun closed last _ hlast _ => ?_
  cases closed with
  | none => exact (Reader.Traces.expect _).bind fun _ _ _ _ _ => .reject
  | some closed =>
    refine build_traces hinner.toAdmits fun command hmade => ?_
    -- the options lie between the opening and the closing mark, in the
    -- order in which they were read
    have hall := hfirst.append hrest hbehind hafter
    rw [Spans, Command.labels_makeVariant hmade]
    exact spread_block (hall.widen (Nat.le_refl _) (by omega)) (by omega) (by omega)

/-! ## 4. Variables and wraps -/

/-- An assignment stands as its value does. -/
theorem assignment_traces (hinner : inner.Tracing s q) :
    (assignment s inner).Traces s.source q c (Spans s c) := by
  rw [assignment]
  refine (Reader.Traces.accept _).bind fun _ _ _ h₁ _ =>
    Reader.Traces.skipBlanks.bind fun _ _ _ h₂ _ =>
    variableName_traces.bind fun name _ _ h₃ _ => ?_
  refine Reader.Traces.skipBlanks.bind fun _ _ _ h₄ _ =>
    (Reader.Traces.tryAccept _).bind fun _ _ _ h₅ _ =>
    (Reader.Traces.accept _).bind fun _ _ _ h₆ _ =>
    (Reader.Traces.tryAccept _).bind fun _ place _ h₇ _ => ?_
  refine (operand_traces hinner).bind fun value behind _ hbehind hvalue => ?_
  refine Reader.Traces.skipBlanks.bind fun _ _ _ hend _ =>
    (Reader.Traces.accept _).bind fun _ last _ hlast _ =>
      build_traces hinner.toAdmits fun command hmade => ?_
  -- the value is the only part, and everything read around it lies outside of its room
  rw [Spans, Command.labels_makeAssignment hmade]
  exact hvalue.widen (by omega) (by omega)

/-- A default stands behind the name. -/
theorem fallback_traces (hinner : inner.Tracing s q) :
    (fallback inner).Traces s.source q c fun fallback after =>
      Label.Spread s.base c.position after.position (fallback.toList.flatMap Command.labels) := by
  rw [fallback]
  refine (Reader.Traces.tryAccept _).bind fun _ next _ hnext _ => .ite (fun _ => ?_) fun _ =>
    .pure .nil
  refine (operand_traces hinner).bind fun command after _ _ hcommand => .pure ?_
  rw [Option.toList_some, List.flatMap_singleton]
  exact hcommand.widen hnext (Nat.le_refl _)

/-- Reading a variable stands as its default does. -/
theorem access_traces (hinner : inner.Tracing s q) (inPath : Bool) :
    (access s inner inPath).Traces s.source q c (Spans s c) := by
  rw [access]
  refine (Reader.Traces.accept _).bind fun _ _ _ h₁ _ =>
    Reader.Traces.skipBlanks.bind fun _ _ _ h₂ _ =>
    variableName_traces.bind fun name _ _ h₃ _ => ?_
  refine Reader.Traces.skipBlanks.bind fun _ place _ h₄ _ =>
    (fallback_traces hinner).bind fun fallback behind _ hbehind hfallback => ?_
  refine Reader.Traces.skipBlanks.bind fun _ _ _ hend _ =>
    (Reader.Traces.accept _).bind fun _ last _ hlast _ =>
      build_traces hinner.toAdmits fun command hmade => ?_
  -- the name that stands in for a default is a literal
  have hlabels : command.labels = fallback.toList.flatMap Command.labels := by
    rw [Command.labels_makeAccess hmade]
    cases inPath <;> cases fallback <;> simp
  rw [Spans, hlabels]
  exact hfallback.widen (by omega) (by omega)

/-- The parts of a wrapping stand one behind the other. -/
theorem wrapBlock_traces (hinner : inner.Tracing s q) :
    (wrapBlock s inner).Traces s.source q c (Spans s c) := by
  rw [wrapBlock]
  refine (Reader.Traces.accept _).bind fun _ opened _ hopened _ =>
    (operand_traces hinner).bind fun wrapper _ _ h₁ hwrapper => ?_
  refine Reader.Traces.skipBlanks.bind fun _ _ _ h₂ _ =>
    (Reader.Traces.accept _).bind fun _ _ _ h₃ _ =>
    (operand_traces hinner).bind fun wrapped _ _ h₄ hwrapped => ?_
  refine Reader.Traces.skipBlanks.bind fun _ _ _ hend _ =>
    (Reader.Traces.accept _).bind fun _ last _ hlast _ => .pure ?_
  -- first the wrapper and then what it wraps, as they are read and as their labels are listed
  have hboth := (hwrapper.widen hopened (Nat.le_trans h₂ h₃)).append hwrapped (by omega) h₄
  have hlabels : (Command.wrap wrapper wrapped).labels = wrapper.labels ++ wrapped.labels := by
    rw [Command.labels_eq]
    simp [Command.parts, Command.label?]
  rw [Spans, hlabels]
  exact hboth.widen (Nat.le_refl _) (by omega)

/-! ## 5. Wildcards -/

/-- A piece of a path stands where it is read. -/
theorem pathChunk_traces (hopens : s.grammar.Opens) (hinner : inner.Tracing s q) :
    (pathChunk s inner).Traces s.source q c (Spans s c) := by
  rw [pathChunk]
  refine .firstOf (List.forall_mem_cons.2 ⟨access_traces hinner true, ?_⟩)
  refine List.forall_mem_cons.2 ⟨variantBlock_traces hopens hinner, ?_⟩
  exact List.forall_mem_singleton.2 (text_traces .path)

/-- Readings one after another, each with its labels behind those before. -/
theorem many_traces {reader : Reader Command}
    (h : ∀ c : Cursor, reader.Traces s.source q c (Spans s c)) (rounds : Nat) :
    (Reader.many reader rounds).Traces s.source q c fun values after =>
      Label.Spread s.base c.position after.position (values.flatMap Command.labels) := by
  induction rounds generalizing c with
  | zero => exact .exhausted
  | succ rounds ih =>
    rw [Reader.many]
    refine (h c).attempt.bind fun found next _ hnext hfound => ?_
    cases found with
    | none => exact .pure .nil
    | some value =>
      refine ih.bind fun rest last _ hlast hrest => .pure ?_
      exact (hfound.1 value rfl).append hrest hnext hlast

/-- The pairs of a wildcard stand in parentheses of the source, right where the reader is. -/
theorem bindings_traces {source : Text} :
    bindings.Traces source q c fun content after =>
      Parenthesized source content ∧ Bracketed c.rest content after.rest := by
  rw [bindings]
  refine Reader.Traces.skipBlanks.bind fun _ start hstart _ hblanks =>
    (Reader.Traces.accept _).bind fun _ opened _ _ hopened => ?_
  refine (Reader.Traces.takeWhile _).bind fun content behind _ _ hcontent =>
    .ite (fun _ => .reject) fun hne => ?_
  refine (Reader.Traces.accept _).bind fun _ last _ _ hlast => .pure ?_
  obtain ⟨hcontent, hbehind⟩ := hcontent
  obtain ⟨before, hsource, -⟩ := hstart
  have hclosed : unit ')' ∉ content := by
    intro hmem
    rw [hcontent] at hmem
    exact absurd (List.all_eq_true.1 List.all_takeWhile _ hmem) (by decide)
  -- the content and what was left behind it are what stood behind the parenthesis
  have hsplit : opened.rest = content ++ behind.rest := by
    rw [hcontent, hbehind, Cursor.skipWhile_rest, List.takeWhile_append_dropWhile]
  have hstands : start.rest = units "(" ++ content ++ units ")" ++ last.rest := by
    rw [hopened.1, hsplit, hlast.1]
    simp only [List.append_assoc]
  refine ⟨⟨hclosed, before, last.rest, ?_⟩, hclosed, fun hnil => hne (by rw [hnil]; rfl), ?_⟩
  · rw [hsource, hstands]
    simp only [List.append_assoc]
  · rw [← Cursor.skipWhile_rest, ← hblanks, hstands]

/-- A pair that reading came to stands in the source. -/
theorem Reached.infix_source {pair : Text} (h : Reached s inner pair) : pair <:+: s.source := by
  obtain ⟨content, ⟨-, before, after, hsource⟩, hpair⟩ := h.parenthesized
  have hcontent : content <:+: s.source :=
    ⟨before ++ units "(", units ")" ++ after, by rw [hsource]; simp only [List.append_assoc]⟩
  exact (Text.infix_of_mem_splitAt.2 pair hpair).trans hcontent

/-- Where the inline variables of a wildcard stand: their labels are under its position, or there
is an error of the kind. -/
def BindingsPlaced (s : Setting) (q : ParseError → Prop) (position : Nat) :
    Except ParseError InlineRecord → Prop
  | .ok record => Label.Spread s.base position (position + 1) (variableLabels record.entries)
  | .error error => error ≠ .exhausted → q error

/-- The labels of inline variables stand under the number of their pair, or there is an error
of the kind. What the record inherits from was given under the one name that makes no entry, so
that name stands in the source. -/
theorem inlineVariables_placed (hinner : inner.Tracing s q) {position : Nat}
    (hposition : position ≤ s.source.length) (index : Nat) {record : InlineRecord}
    {pairs : List Text} (hreached : ∀ before pair behind, pairs = before ++ pair :: behind →
      (∀ other ∈ before, isVariableName (splitBinding other).1 = true ∧
        ∃ base command, inner.value base (splitBinding other).2 = .ok command) →
      Reached s inner pair)
    (hinherited : record.inherited.isSome = true → unboundName <:+: s.source)
    (hnames : (record.entries.map (·.1)).Nodup)
    (hrecord : Label.Spread (s.base ++ [position]) 0 index (variableLabels record.entries)) :
    BindingsPlaced s q position (inlineVariables s inner position index record pairs) := by
  induction pairs generalizing index record with
  | nil => exact hrecord.under
  | cons pair pairs ih =>
    have hpair : Reached s inner pair := hreached [] pair pairs rfl (List.forall_mem_nil _)
    rw [inlineVariables]
    -- a pair fails by its name, by its value or at the record; else its
    -- labels lie at its own index
    by_cases hname : (!isVariableName (splitBinding pair).1) = true
    · simp only [if_pos hname]
      exact fun _ => hinner.located _ (.ofPosition hposition fun _ _ h => by cases h)
    · simp only [if_neg hname]
      have hisName : isVariableName (splitBinding pair).1 = true := by simpa using hname
      cases hvalue : inner.value (s.base ++ [position, index]) (splitBinding pair).2 with
      | error error => exact hinner.raised pair _ error hpair hisName hvalue
      | ok command =>
        dsimp only
        cases hset : record.set (splitBinding pair).1 command with
        | none =>
          obtain ⟨node, hnode, -⟩ := InlineRecord.of_set_eq_none hset
          exact fun _ => hinner.readOnly _ _ (hinherited (by rw [hnode]; rfl))
        | some after =>
          have hspread : Label.Spread ((s.base ++ [position]) ++ [index]) 0
              ((splitBinding pair).2.length + 1) command.labels := by
            rw [List.append_assoc]
            exact hinner.value _ _ command hvalue
          have hmore : ∀ before other behind, pairs = before ++ other :: behind →
              (∀ other ∈ before, isVariableName (splitBinding other).1 = true ∧
                ∃ base command, inner.value base (splitBinding other).2 = .ok command) →
              Reached s inner other := fun before other behind hpairs hbefore =>
            hreached (pair :: before) other behind (by rw [hpairs, List.cons_append])
              (List.forall_mem_cons.2 ⟨⟨hisName, _, command, hvalue⟩, hbefore⟩)
          -- the name of the prototype adds no entry, and the room of the index is left empty
          rcases InlineRecord.of_set_eq_some hset with ⟨hunbound, rfl⟩ | ⟨-, -, rfl⟩
          · exact ih (index + 1) hmore
              (fun _ => hunbound ▸ (infix_splitBinding pair).1.trans hpair.infix_source) hnames
              (hrecord.widen (Nat.le_refl _) (Nat.le_succ _))
          · obtain ⟨hnames', hentries⟩ := spread_setVariable hnames hrecord hspread.under
            exact ih (index + 1) hmore hinherited hnames' hentries

/-- A wildcard takes the place where it begins; its path and its inline variables stand behind it.
-/
theorem wildcard_traces (hopens : s.grammar.Opens) (hinner : inner.Tracing s q) :
    (wildcard s inner).Traces s.source q c (Spans s c) := by
  refine .of_in fun hin => ?_
  rw [wildcard]
  refine .bind_here ((Reader.Traces.accept _).bind fun _ opened _ _ hopened => ?_)
  have hopen := hopens.wildcardWrap
  refine sampler_traces.run.bind fun sampling marked _ hmarkedLe hmarked =>
    (many_traces (fun _ => pathChunk_traces hopens hinner) _).run.bind
      fun path named hnamed hle hpath => ?_
  refine .ite (fun _ => (Reader.Traces.expect _).bind fun _ _ _ _ _ => .reject) fun _ =>
    .bind_here ?_
  refine bindings_traces.attempt.run.bind fun bindings closing _ hbehind hclosing =>
    (Reader.Traces.accept _).bind fun _ after _ _ hafter => ?_
  obtain ⟨hbindings, hclosing⟩ := hclosing
  have hblock : WildcardBlock s inner c sampling path bindings after :=
    ⟨hin, opened, marked, named, closing, hopened.1, hmarked.2, hpath.2, hclosing,
      fun content hcontent => (hbindings.1 content hcontent).2, hbindings.2, hafter.1⟩
  have hinlined : BindingsPlaced s q named.position (inlineVariables s inner named.position 0 .empty
      ((bindings.map (Text.splitAt 44)).getD [])) := by
    refine inlineVariables_placed hinner hnamed.position_le 0 ?_
      (fun hsome => Bool.noConfusion hsome) .nil .nil
    intro before pair behind hpairs hbefore
    cases bindings with
    | none => simp at hpairs
    | some content =>
      rw [Option.map_some, Option.getD_some] at hpairs
      exact ⟨⟨c, sampling, path, content, after, before, behind, hblock, hpairs, hbefore⟩, content,
        (hbindings.1 content rfl).1, hpairs ▸ List.mem_append_right _ List.mem_cons_self⟩
  dsimp only
  split
  · next error herror =>
    rw [herror] at hinlined
    exact fun _ _ _ => hinlined
  · next record hok =>
    rw [hok] at hinlined
    refine build_traces hinner.toAdmits fun command hmade => ?_
    rw [Spans, Command.labels_makeWildcard hmade, Command.labels_ofList]
    -- the values stand where the bindings begin, which is before the closing delimiter
    have hall :=
      (hpath.1.widen hmarkedLe (Nat.le_refl _)).append hinlined (by omega) (Nat.le_succ _)
    exact spread_block (hall.widen (Nat.le_refl _) (by omega)) (by omega) (by omega)

/-! ## 6. Chunks -/

/-- Every production stands where it is read. -/
theorem chunk_traces (hopens : s.grammar.Opens) (hinner : inner.Tracing s q) (context : Context) :
    (chunk s inner context).Traces s.source q c (Spans s c) := by
  rw [chunk]
  refine .firstOf fun reader hreader => ?_
  -- one line for each production, in the order in which they are tried
  simp only [List.mem_cons, List.not_mem_nil, or_false] at hreader
  rcases hreader with rfl | rfl | rfl | rfl | rfl | rfl | rfl | rfl | rfl
  · exact commentBlock_traces
  · exact probabilityBlock_traces hopens hinner
  · exact conditionBlock_traces hinner
  · exact assignment_traces hinner
  · exact access_traces hinner false
  · exact wrapBlock_traces hinner
  · exact variantBlock_traces hopens hinner
  · exact wildcard_traces hopens hinner
  · exact text_traces context

/-- Chunks stand one behind the other, by induction on the rounds. -/
theorem chunks_traces (hopens : s.grammar.Opens) (hinner : inner.Tracing s q) (context : Context)
    (rounds : Nat) :
    (chunks s inner context rounds).Traces s.source q c fun read after =>
      Label.Spread s.base c.position after.position (read.flatMap Command.labels) := by
  induction rounds generalizing c with
  | zero => exact .exhausted
  | succ rounds ih =>
    rw [chunks]
    refine skipComments_traces.bind fun _ place _ hplace _ =>
      (chunk_traces hopens hinner context).attempt.bind fun found next _ hnext hfound => ?_
    cases found with
    | none => exact .pure .nil
    | some command =>
      refine ih.bind fun rest last _ hlast hrest => .pure ?_
      exact ((hfound.1 command rfl).append hrest hnext hlast).widen hplace (Nat.le_refl _)

/-! ## 7. Whole sources -/

/-- What is wrong with a source that was not read to its end is wrong at a place of it. -/
theorem leftover_located {source : Text} (hc : c.In source) {f : Furthest}
    (hf : f.position ≤ source.length) : (leftover source c f).LocatedIn source := by
  refine .ofPosition (Nat.max_le.2 ⟨hf, hc.position_le⟩) ?_
  intro expected found h
  cases h
  rfl

/-- The labels of a tree stand in the source that it was read from, or the error is of the kind. -/
def Placed (base : List Nat) (source : Text) (q : ParseError → Prop) :
    Except ParseError Command → Prop
  | .ok command => Label.Spread base 0 (source.length + 1) command.labels
  | .error error => error ≠ .exhausted → q error

/-- A whole source, if its chunks trace it, and what is wrong at a place of it is of the kind. -/
theorem whole_placed {g : Grammar} {base : List Nat} {reader : Text → Reader Command}
    {source : Text} (hq : ∀ e : SyntaxError, e.LocatedIn source → q (.malformed e))
    (h : (reader source).Traces source q (.start source) fun command after =>
      Label.Spread base 0 after.position command.labels) :
    Placed base source q (whole g reader source) := by
  have hstart := Cursor.In.start source
  unfold whole
  -- what is left over is an error at the furthest place, which lies in the source
  split
  · rw [Placed, Command.labels_literal]
    exact .nil
  · have hrun := h hstart ⟨0, []⟩ (Nat.zero_le _)
    cases hread : reader source (.start source) ⟨0, []⟩ with
    | failed error =>
      rw [hread] at hrun
      exact hrun
    | rejected f =>
      rw [hread] at hrun
      exact fun _ => hq _ (leftover_located hstart hrun)
    | accepted command c f =>
      rw [hread] at hrun
      obtain ⟨hin, -, hf, hspread⟩ := hrun
      dsimp only
      cases hafter : afterComments? (c.rest.length + 1) c with
      | none => exact fun hne => absurd rfl hne
      | some after =>
        dsimp only
        split
        · have := hin.position_le
          exact hspread.widen (Nat.le_refl _) (by omega)
        · exact fun _ => hq _ (leftover_located (afterComments_in hin hafter).1 hf)

/-- The recursive calls that are made so many blocks deep. -/
def innerAt (g : Grammar) (origin : Origin) (depth : Nat) (base : List Nat) (source : Text) :
    Inner :=
  ⟨chunksWith g origin depth base .block source,
    fun base value => whole g (chunksWith g origin depth base .prompt) value⟩

/-- Where an error comes from: a place of the source, a refused node or name, or the value of an
inline variable that reading came to, which was read as a source of its own. -/
inductive Raised (g : Grammar) (origin : Origin) : Text → ParseError → Prop
  | located {source : Text} {e : SyntaxError} (h : e.LocatedIn source) :
    Raised g origin source (.malformed e)
  | refused (source : Text) (cause : BuildError) : Raised g origin source (.refused cause)
  | readOnly {source : Text} (h : unboundName <:+: source) (name record : Text) :
    Raised g origin source (.readOnly name record)
  | value {source pair : Text} {error : ParseError} {depth : Nat} {base base' : List Nat}
    (reached : Reached ⟨g, origin, base, source⟩ (innerAt g origin depth base source) pair)
    (isName : isVariableName (splitBinding pair).1 = true)
    (fails : (innerAt g origin depth base source).value base' (splitBinding pair).2 = .error error)
    (within : Raised g origin (splitBinding pair).2 error) : Raised g origin source error

/-- The chunks of a template or of a block. The induction is on the depth, and no depth is
too small, because running out of it is no error of any kind. -/
theorem chunksWith_traces {g : Grammar} (hopens : g.Opens) (origin : Origin) (depth : Nat)
    (base : List Nat) (context : Context) (source : Text) (c : Cursor) :
    (chunksWith g origin depth base context source).Traces source (Raised g origin source) c
      fun command after => Label.Spread base c.position after.position command.labels := by
  induction depth generalizing base context source c with
  | zero => exact .exhausted
  | succ depth ih =>
    -- a value is a source of its own, and its place is the base under which it is read
    have hvalue (base' : List Nat) (value : Text) :
        Placed base' value (Raised g origin value)
          ((innerAt g origin depth base source).value base' value) :=
      whole_placed (fun _ => .located) (ih base' .prompt value (.start value))
    have hinner : Inner.Tracing ⟨g, origin, base, source⟩ (Raised g origin source)
        (innerAt g origin depth base source) := by
      refine ⟨⟨fun e => .located, .refused source, fun name record h => .readOnly h name record⟩,
        fun c => ih base .block source c, fun base value command hread => ?_,
        fun pair base' error hreached hname hread hne => ?_⟩
      · have hplaced := hvalue base value
        rwa [hread] at hplaced
      · have hplaced := hvalue base' (splitBinding pair).2
        rw [hread] at hplaced
        exact .value hreached hname hread (hplaced hne)
    rw [chunksWith]
    refine .bind_here ((chunks_traces (s := ⟨g, origin, base, source⟩) hopens hinner context _).bind
      fun read after _ _ hread => .pure ?_)
    rw [Command.labels_ofList]
    exact hread

/-- A template: the labels of its tree, with no beginning in common, or where its error comes
from. -/
theorem parse_placed {g : Grammar} (hopens : g.Opens) (origin : Origin) (source : Text) :
    Placed [] source (Raised g origin source) (g.parse origin source) :=
  whole_placed (fun _ => .located) (chunksWith_traces hopens origin _ [] .prompt source _)

end PromptTemplate.Template
