/-
`Doubles.lean` -- the productions, read at twin places.

Two settings with one grammar may differ in their origin, in the source that stands behind
the places, and in where labels begin. What is read by one at a place and by the other at a
twin place is alike: the same tree up to what is looked at of labels, or errors that are
taken for the same. Each production is one lemma over its two recursive calls, and the circle
is closed by induction on the depth of blocks, which may differ too.

Compared loosely this says that one source is read alike under any two origins; compared
exactly, that the origin and where labels begin decide the labels of the tree and nothing else.
-/
import PromptTemplate.Proofs.Template.Parsing
import PromptTemplate.Proofs.Template.Printed.Operands
import PromptTemplate.Proofs.Template.Twins

set_option autoImplicit false

namespace PromptTemplate

/-! ## 1. Trees that are alike -/

/-- Lists whose members look the same one by one look the same. -/
theorem map_eq_of_forall₂ {α β : Type} {view view' : α → β} {l l' : List α}
    (h : List.Forall₂ (fun a b => view' b = view a) l l') : l'.map view' = l.map view := by
  induction h with
  | nil => rfl
  | cons hfirst _ ih => rw [List.map_cons, List.map_cons, hfirst, ih]

namespace Collation

variable (k : Collation)

/-- Trees that look the same: what is looked at of the labels is the same, and all else too. -/
def Alike (command other : Command) : Prop :=
  other.relabelled k.second = command.relabelled k.first

/-- Options of one weight with alike values. -/
def AlikeOption (option other : Option Number × Command) : Prop :=
  Prod.map id (Command.relabelled k.second) other = Prod.map id (Command.relabelled k.first) option

/-- Branches of one test with alike values. -/
def AlikeBranch (branch other : Command.BranchInput) : Prop :=
  other.relabelled k.second = branch.relabelled k.first

/-- Records of inline variables that are alike in all that they hold. -/
def AlikeRecord (record other : InlineRecord) : Prop :=
  other.relabelled k.second = record.relabelled k.first

/-- Two settings of one grammar that correspond: at offsets that do, so do their labels, and
so do the errors there. -/
structure Settings (s s' : Template.Setting) : Prop where
  grammar : s'.grammar = s.grammar
  label : ∀ {place place'}, List.Forall₂ k.offset place place' →
    k.first ⟨s.base ++ place, s.origin⟩ = k.second ⟨s'.base ++ place', s'.origin⟩
  error : ∀ {m n}, k.offset m n → ∀ fault,
    k.error (.malformed (.ofPosition s.source m fault)) (.malformed (.ofPosition s'.source n fault))

variable {k}

/-- Commands that are alike are alike when they are put together. -/
theorem Alike.ofList {commands others : List Command} (h : List.Forall₂ k.Alike commands others) :
    k.Alike (Command.ofList commands) (Command.ofList others) := by
  rw [Alike, Command.relabelled_ofList, Command.relabelled_ofList, map_eq_of_forall₂ h]

/-- Operands that are alike are alike without the blanks around them. -/
theorem Alike.trimOperand {command other : Command} (h : k.Alike command other) :
    k.Alike (Template.trimOperand command) (Template.trimOperand other) := by
  rw [Alike, Template.relabelled_trimOperand, Template.relabelled_trimOperand, h]

/-- A text is alike to itself. -/
theorem Alike.literal (text : Text) : k.Alike (.literal text) (.literal text) := rfl

/-- Records that are alike refuse a name both, in the same words, or take it both. -/
theorem AlikeRecord.set {record other : InlineRecord} (h : k.AlikeRecord record other) (name : Text)
    {value value' : Command} (hvalue : k.Alike value value') :
    other.title = record.title ∧
      Option.Rel k.AlikeRecord (record.set name value) (other.set name value') := by
  rw [AlikeRecord] at h
  refine ⟨by rw [← other.title_relabelled (f := k.second), h, InlineRecord.title_relabelled], ?_⟩
  have hset : (other.set name value').map (InlineRecord.relabelled k.second) =
      (record.set name value).map (InlineRecord.relabelled k.first) := by
    rw [← InlineRecord.set_relabelled, ← InlineRecord.set_relabelled, h, hvalue]
  -- the records are alike, so both take the name or both are refused
  cases hleft : record.set name value with
  | none =>
    rw [hleft, Option.map_none, Option.map_eq_none_iff] at hset
    rw [hset]
    exact .none
  | some after =>
    rw [hleft, Option.map_some, Option.map_eq_some_iff] at hset
    obtain ⟨after', hright, hafter⟩ := hset
    rw [hright]
    exact .some hafter

/-- Twins are labelled alike. -/
theorem Settings.labels {s s' : Template.Setting} (hs : k.Settings s s') {c d : Cursor}
    (htwin : k.twin c d) : k.first (s.label c) = k.second (s'.label d) :=
  hs.label (.cons (k.position htwin) .nil)

end Collation

namespace Template

open Collation (Alike)
open Reader (Agree AcceptAlike)

/-! ## 2. What the productions are over -/

/-- The recursive calls agree, the values of inline variables wherever labels that correspond
begin. -/
structure Inner.Agree (k : Collation) (s s' : Setting) (inner other : Inner) : Prop where
  block : inner.block.Agree k k.Alike other.block
  value : ∀ {place place'}, List.Forall₂ k.offset place place' → ∀ value,
    ParseError.Agree k k.Alike (inner.value (s.base ++ place) value)
      (other.value (s'.base ++ place') value)

section Parts

variable {α : Type} {k : Collation} {same : α → α → Prop} {s s' : Setting}

/-- Failing at twins is failing in the same way. -/
theorem failAt_agree (hs : k.Settings s s') {c d : Cursor} (htwin : k.twin c d)
    (fault : SyntaxFault) :
    (failAt s c.position fault : Reader α).Agree k same (failAt s' d.position fault) :=
  .fail (hs.error (k.position htwin) fault)

/-- Nodes that are made alike are built alike. -/
theorem build_agree {made made' : Except BuildError Command}
    (h : made'.map (Command.relabelled k.second) = made.map (Command.relabelled k.first)) :
    (build made).Agree k k.Alike (build made') := by
  cases made with
  | error error =>
    cases made' with
    | error error' =>
      cases h
      exact .fail (k.same _ (by simp))
    | ok command' => cases h
  | ok command =>
    cases made' with
    | error error' => cases h
    | ok command' => exact .pure (Except.ok.inj h)

/-! ### Text -/

/-- Behind its first unit plain text looks no further back. -/
theorem plainText_twin {c d : Cursor} (h : c.Twin d) (g : Grammar) (context : Context) :
    plainText g context c.previous c.rest = plainText g context d.previous d.rest := by
  have hcomment := h.comment
  rw [← h.rest] at hcomment ⊢
  cases hrest : c.rest with
  | nil => rfl
  | cons u rest =>
    rw [hrest] at hcomment
    rw [plainText, plainText, endsText, endsText, hcomment]

/-- Runs of text are never rejected, however many there are. -/
theorem textRuns_twin (g : Grammar) (context : Context) (rounds rounds' : Nat) {c d : Cursor}
    (htwin : k.twin c d) :
    (textRuns g context rounds).AcceptAlike k Eq (textRuns g context rounds') c d := by
  induction rounds generalizing rounds' c d with
  | zero => exact .exhausted_left
  | succ rounds ih =>
    -- rounds that run out are excused on either side; otherwise both take the same steps
    cases rounds' with
    | zero => exact .exhausted_right
    | succ rounds' =>
      rw [textRuns, textRuns]
      refine AcceptAlike.bind_here ?_
      rw [← plainText_twin (k.looks htwin)]
      refine .ite (.pure rfl htwin)
        (AcceptAlike.bind_moveTo (.ite (.pure rfl (k.advance htwin _)) ?_))
      refine (skipComments_twin (k.advance htwin _)).bind
        fun skipped _ hskipped after after' hafter => ?_
      subst hskipped
      refine .ite ((ih rounds' hafter).bind fun runs _ hruns _ _ hlast => ?_) (.pure rfl hafter)
      exact .pure (congrArg _ hruns) hlast

/-- Text up to the same place. -/
theorem textRuns_agree (g : Grammar) (context : Context) (rounds rounds' : Nat) :
    (textRuns g context rounds).Agree k Eq (textRuns g context rounds') :=
  AcceptAlike.agree fun _ _ => textRuns_twin g context rounds rounds'

/-- Text is the same literal. -/
theorem text_agree (hs : k.Settings s s') (context : Context) :
    (text s context).Agree k k.Alike (text s' context) := by
  rw [text, text, hs.grammar]
  refine Agree.here.bind fun c d _ => (textRuns_agree s.grammar context _ _).bind_eq fun runs => ?_
  exact .ite ((Agree.expect _).bind_eq fun _ => .reject) (.pure (.literal _))

/-! ### Marks -/

/-- A decimal has the same digits. -/
theorem real_agree : real.Agree k Eq real := by
  intro c d htwin f g hnoted
  rw [real, real, ← (k.looks htwin).rest]
  cases splitReal? c.rest with
  | none => exact .rejected hnoted
  | some parts => exact .accepted rfl (k.advance htwin _) hnoted

/-- A marker says the same method. -/
theorem sampler_agree : sampler.Agree k Eq sampler := by
  intro c d htwin f g hnoted
  rw [sampler, sampler, ← (k.looks htwin).rest]
  cases c.rest.head?.bind Sampling.ofMarker? with
  | none => exact .accepted rfl htwin hnoted
  | some method => exact .accepted rfl (k.advance htwin _) hnoted

/-- A name of a variable is the same. -/
theorem variableName_agree : variableName.Agree k Eq variableName := by
  refine Agree.here.bind fun c d htwin => ?_
  rw [← (k.looks htwin).rest]
  exact .ite (.takeWhile _) ((Agree.expect _).bind_eq fun _ => .reject)

/-- A comment is the same. -/
theorem commentBlock_agree (hs : k.Settings s s') :
    (commentBlock s).Agree k k.Alike (commentBlock s') := by
  rw [commentBlock, commentBlock, hs.grammar]
  refine (Agree.accept _).bind_eq fun _ => Agree.skipBlanks.bind_eq fun _ =>
    (Agree.tryAccept _).bind_eq fun starred => .ite ?_ .reject
  refine Agree.here.bind fun c d htwin => ?_
  rw [← (k.looks htwin).rest]
  refine (Agree.moveTo (k.advance htwin _)).bind_eq fun _ => (Agree.accept _).bind_eq fun _ =>
    Agree.skipBlanks.bind_eq fun _ => (Agree.accept _).bind_eq fun _ => .pure rfl

/-- A pattern has the same text, and compiles or not on both sides. -/
theorem pattern_agree (hs : k.Settings s s') : (pattern s).Agree k Eq (pattern s') := by
  rw [pattern, pattern, hs.grammar]
  refine Agree.here.bind fun c d htwin => ?_
  rw [← (k.looks htwin).rest]
  cases patternText? s.grammar c.rest with
  | none => exact .reject
  | some raw =>
    refine (Agree.moveTo (k.advance htwin _)).bind_eq fun _ => (Agree.accept _).bind_eq fun _ => ?_
    exact .ite .reject (.pure rfl)

/-- Bounds are the same numbers, or too large on both sides. -/
theorem bounds_agree (hs : k.Settings s s') : (bounds s).Agree k Eq (bounds s') := by
  -- a separator is read as text, so it is the same on both sides and not only alike
  have hseparator : (rawSeparator s).Agree k Eq (rawSeparator s') := by
    rw [rawSeparator, rawSeparator, hs.grammar]
    refine (Agree.takeWhile _).bind_eq fun raw => .ite .reject ?_
    exact (Agree.accept _).bind_eq fun _ => .pure rfl
  refine Agree.here.bind fun c d htwin => (Agree.takeWhile _).bind_eq fun lower => ?_
  have hupper : (upperDigits lower).Agree k Eq (upperDigits lower) :=
    (Agree.tryAccept _).bind_eq fun _ => .ite (.takeWhile _) (.pure rfl)
  refine hupper.bind_eq fun upper => .ite .reject ((Agree.accept _).bind_eq fun _ => ?_)
  refine .ite (failAt_agree hs htwin _) (hseparator.attempt.bind fun found found' hfound =>
    .pure ?_)
  cases hfound with
  | none => rfl
  | some h => rw [h]

/-- A weight is the same number, or there is none. -/
theorem weight_agree (hs : k.Settings s s') {c d : Cursor} (htwin : k.twin c d) :
    (weight s c).Agree k Eq (weight s' d) := by
  refine real_agree.bind_eq fun digits => (Agree.tryAccept _).bind_eq fun _ => .ite ?_ .reject
  dsimp only
  split
  · exact .pure rfl
  · exact failAt_agree hs htwin _

/-- The pairs of a wildcard are the same texts. -/
theorem bindings_agree : bindings.Agree k Eq bindings :=
  Agree.skipBlanks.bind_eq fun _ => (Agree.accept _).bind_eq fun _ =>
    (Agree.takeWhile _).bind_eq fun _ =>
      .ite .reject ((Agree.accept _).bind_eq fun _ => .pure rfl)

end Parts

/-! ## 3. Productions -/

section Blocks

variable {k : Collation} {s s' : Setting} {inner inner' : Inner} (hs : k.Settings s s')
  (hinner : inner.Agree k s s' inner')

include hinner in

/-- Operands are read by the readers inside. -/
theorem operand_agree : (operand inner).Agree k k.Alike (operand inner') :=
  Agree.skipBlanks.bind_eq fun _ => hinner.block.bind fun _ _ hread => .pure hread.trimOperand

include hs hinner

/-- A part with a chance has the same chance, and a value alike. -/
theorem probabilityBlock_agree :
    (probabilityBlock s inner).Agree k k.Alike (probabilityBlock s' inner') := by
  rw [probabilityBlock, probabilityBlock, hs.grammar]
  refine Agree.here.bind fun c d htwin => (Agree.accept _).bind_eq fun _ =>
    Agree.skipBlanks.bind_eq fun _ => real_agree.attempt.bind fun found found' hfound => ?_
  cases hfound with
  | none => exact (Agree.expect _).bind_eq fun _ => .reject
  | @some chance _ hchance =>
    subst hchance
    refine (Agree.accept _).bind_eq fun _ => (operand_agree hinner).bind fun value value' hvalue =>
      Agree.skipBlanks.bind_eq fun _ => (Agree.accept _).bind_eq fun _ => build_agree ?_
    rw [Command.makeProbability_relabelled, Command.makeProbability_relabelled, hvalue,
      hs.labels htwin]

/-- A branch has the same key and pattern, and a value alike. -/
theorem branch_agree : (branch s inner).Agree k k.AlikeBranch (branch s' inner') := by
  refine (pattern_agree hs).bind_eq fun raw =>
    (operand_agree hinner).bind fun value value' hvalue => .pure ?_
  rw [Collation.AlikeBranch, Command.BranchInput.relabelled, Command.BranchInput.relabelled, hvalue]

/-- Further branches, by induction on the rounds of both sides. -/
theorem moreBranches_agree (rounds rounds' : Nat) :
    (moreBranches s inner rounds).Agree k
      (fun read read' => List.Forall₂ k.AlikeBranch read.1 read'.1 ∧ k.Alike read.2 read'.2)
      (moreBranches s' inner' rounds') := by
  induction rounds generalizing rounds' with
  | zero => exact .exhausted_left
  | succ rounds ih =>
    cases rounds' with
    | zero => exact .exhausted_right
    | succ rounds' =>
      rw [moreBranches, moreBranches]
      refine (Agree.tryAccept _).bind_eq fun _ => .ite ?_ (.pure ⟨.nil, .literal _⟩)
      have hnext := Agree.skipBlanks.bind_eq fun _ => branch_agree hs hinner
      refine hnext.attempt.bind fun found found' hfound => ?_
      -- a part that is no branch is the value for all other cases, and ends the block
      cases hfound with
      | none => exact (operand_agree hinner).bind fun _ _ hvalue => .pure ⟨.nil, hvalue⟩
      | some hbranch =>
        exact (ih rounds').bind fun _ _ hrest => .pure ⟨.cons hbranch hrest.1, hrest.2⟩

/-- A condition has branches alike, and what is left is alike. -/
theorem conditionBlock_agree :
    (conditionBlock s inner).Agree k k.Alike (conditionBlock s' inner') := by
  rw [conditionBlock, conditionBlock, hs.grammar]
  refine (Agree.accept _).bind_eq fun _ => Agree.here.bind fun c d htwin => ?_
  refine (branch_agree hs hinner).bind fun first first' hfirst =>
    (moreBranches_agree hs hinner _ _).bind fun read read' hread => ?_
  refine Agree.skipBlanks.bind_eq fun _ => (Agree.accept _).bind_eq fun _ => ?_
  -- both conditions are made of the same branches up to labels, or refused for the same cause
  have hbranches := map_eq_of_forall₂ (List.Forall₂.cons hfirst hread.1)
  have hmade : (Command.makeCondition (first' :: read'.1) read'.2).map
      (Command.relabelled k.second) =
      (Command.makeCondition (first :: read.1) read.2).map (Command.relabelled k.first) := by
    rw [Command.makeCondition_relabelled, Command.makeCondition_relabelled, hbranches, hread.2]
  cases hleft : Command.makeCondition (first :: read.1) read.2 with
  | ok command =>
    cases hright : Command.makeCondition (first' :: read'.1) read'.2 with
    | ok command' =>
      rw [hleft, hright] at hmade
      exact .pure (Except.ok.inj hmade)
    | error error => rw [hleft, hright] at hmade; cases hmade
  | error error =>
    cases hright : Command.makeCondition (first' :: read'.1) read'.2 with
    | ok command' => rw [hleft, hright] at hmade; cases hmade
    | error error' =>
      rw [hleft, hright] at hmade
      cases hmade
      exact failAt_agree hs htwin _

/-- An option has the same weight, and a value alike. -/
theorem option_agree : (option s inner).Agree k k.AlikeOption (option s' inner') := by
  refine Agree.skipBlanks.bind_eq fun _ => Agree.here.bind fun c d htwin =>
    (weight_agree hs htwin).attempt.bind fun found found' hfound => ?_
  refine (operand_agree hinner).bind fun value value' hvalue => .pure ?_
  rw [Collation.AlikeOption, Prod.map, Prod.map, hvalue]
  cases hfound with
  | none => rfl
  | some h => rw [h]

/-- Further options, by induction on the rounds of both sides. -/
theorem moreOptions_agree (rounds rounds' : Nat) :
    (moreOptions s inner rounds).Agree k (List.Forall₂ k.AlikeOption)
      (moreOptions s' inner' rounds') := by
  induction rounds generalizing rounds' with
  | zero => exact .exhausted_left
  | succ rounds ih =>
    cases rounds' with
    | zero => exact .exhausted_right
    | succ rounds' =>
      rw [moreOptions, moreOptions]
      refine (Agree.tryAccept _).bind_eq fun _ => .ite ?_ (.pure .nil)
      exact (option_agree hs hinner).bind fun _ _ hnext =>
        (ih rounds').bind fun _ _ hrest => .pure (.cons hnext hrest)

/-- A variant has the same bounds and separator, and options alike. -/
theorem variantBlock_agree : (variantBlock s inner).Agree k k.Alike (variantBlock s' inner') := by
  rw [variantBlock, variantBlock, hs.grammar]
  refine Agree.here.bind fun c d htwin => (Agree.accept _).bind_eq fun _ =>
    Agree.skipBlanks.bind_eq fun _ => sampler_agree.bind_eq fun sampling =>
      (bounds_agree hs).attempt.bind fun declared declared' hdeclared => ?_
  refine (option_agree hs hinner).bind fun first first' hfirst =>
    (moreOptions_agree hs hinner _ _).bind fun rest rest' hrest =>
      Agree.skipBlanks.bind_eq fun _ => ?_
  refine (Agree.accept _).attempt.bind fun closed closed' hclosed => ?_
  cases hclosed with
  | none => exact (Agree.expect _).bind_eq fun _ => .reject
  | some =>
    -- bounds are numbers and a text, in which no place or label occurs
    have hsame : declared' = declared := by
      cases hdeclared with
      | none => rfl
      | some h => rw [h]
    rw [hsame]
    refine build_agree ?_
    rw [Command.makeVariant_relabelled, Command.makeVariant_relabelled, hs.labels htwin,
      map_eq_of_forall₂ (List.Forall₂.cons hfirst hrest)]

/-- An assignment has the same name and operator, and a value alike. -/
theorem assignment_agree : (assignment s inner).Agree k k.Alike (assignment s' inner') := by
  rw [assignment, assignment, hs.grammar]
  refine (Agree.accept _).bind_eq fun _ => Agree.skipBlanks.bind_eq fun _ =>
    variableName_agree.bind_eq fun name => Agree.skipBlanks.bind_eq fun _ =>
      (Agree.tryAccept _).bind_eq fun preserve => ?_
  refine (Agree.accept _).bind_eq fun _ => (Agree.tryAccept _).bind_eq fun immediate =>
    (operand_agree hinner).bind fun value value' hvalue => Agree.skipBlanks.bind_eq fun _ =>
    (Agree.accept _).bind_eq fun _ => build_agree ?_
  rw [Command.makeAssignment_relabelled, Command.makeAssignment_relabelled, hvalue]

omit hs in

/-- A default is there on both sides or on none. -/
theorem fallback_agree : (fallback inner).Agree k (Option.Rel k.Alike) (fallback inner') :=
  (Agree.tryAccept _).bind_eq fun _ => .ite
    ((operand_agree hinner).bind fun _ _ hvalue => .pure (.some hvalue)) (.pure .none)

/-- Reading a variable has the same name, and a default alike. -/
theorem access_agree (inPath : Bool) :
    (access s inner inPath).Agree k k.Alike (access s' inner' inPath) := by
  rw [access, access, hs.grammar]
  refine (Agree.accept _).bind_eq fun _ => Agree.skipBlanks.bind_eq fun _ =>
    variableName_agree.bind_eq fun name => Agree.skipBlanks.bind_eq fun _ =>
      (fallback_agree hinner).bind fun found found' hfound => ?_
  refine Agree.skipBlanks.bind_eq fun _ => (Agree.accept _).bind_eq fun _ => build_agree ?_
  rw [Command.makeAccess_relabelled, Command.makeAccess_relabelled]
  congr 1
  cases hfound with
  | none => split <;> rfl
  | some h =>
    rw [Alike] at h
    split <;> simp [h]

/-- A wrapping has parts alike. -/
theorem wrapBlock_agree : (wrapBlock s inner).Agree k k.Alike (wrapBlock s' inner') := by
  rw [wrapBlock, wrapBlock, hs.grammar]
  refine (Agree.accept _).bind_eq fun _ => (operand_agree hinner).bind fun outer outer' houter =>
    Agree.skipBlanks.bind_eq fun _ => (Agree.accept _).bind_eq fun _ => ?_
  refine (operand_agree hinner).bind fun within within' hwithin => Agree.skipBlanks.bind_eq fun _ =>
    (Agree.accept _).bind_eq fun _ => .pure ?_
  rw [Alike, Command.relabelled, Command.relabelled, houter, hwithin]

/-! ### Wildcards -/

/-- A piece of a path is alike. -/
theorem pathChunk_agree : (pathChunk s inner).Agree k k.Alike (pathChunk s' inner') :=
  .firstOf (.cons (access_agree hs hinner true) (.cons (variantBlock_agree hs hinner)
    (.cons (text_agree hs .path) .nil)))

/-- The pairs are read one after another, each with what was read before it. -/
theorem inlineVariables_agree {c d : Cursor} (htwin : k.twin c d) {record record' : InlineRecord}
    (hrecord : k.AlikeRecord record record') (index : Nat) (pairs : List Text) :
    ParseError.Agree k k.AlikeRecord (inlineVariables s inner c.position index record pairs)
      (inlineVariables s' inner' d.position index record' pairs) := by
  induction pairs generalizing index record record' with
  | nil => exact .ok hrecord
  -- the first pair that fails ends both: its error is alike, or the record refuses both
  | cons pair pairs ih =>
    rw [inlineVariables, inlineVariables]
    dsimp only
    split
    · exact .error (hs.error (k.position htwin) _)
    · have hvalue := hinner.value (.cons (k.position htwin) (.cons (k.index index) .nil))
        (splitBinding pair).2
      generalize inner.value (s.base ++ [c.position, index]) (splitBinding pair).2 = value,
        inner'.value (s'.base ++ [d.position, index]) (splitBinding pair).2 = value' at hvalue ⊢
      cases hvalue with
      | @ok command command' halike =>
        obtain ⟨htitle, hset⟩ := hrecord.set (splitBinding pair).1 halike
        dsimp only
        generalize record.set (splitBinding pair).1 command = after,
          record'.set (splitBinding pair).1 command' = after' at hset ⊢
        cases hset with
        | none => exact .error (htitle ▸ k.same _ (by simp))
        | some hafter => exact ih hafter (index + 1)
      | error h => exact .error h
      | exhausted_left => exact .exhausted_left
      | exhausted_right => exact .exhausted_right

/-- A wildcard has a path alike, and inline variables of the same names. -/
theorem wildcard_agree : (wildcard s inner).Agree k k.Alike (wildcard s' inner') := by
  rw [wildcard, wildcard, hs.grammar]
  refine Agree.here.bind fun c d htwin => (Agree.accept _).bind_eq fun _ =>
    sampler_agree.bind_eq fun sampling =>
      ((pathChunk_agree hs hinner).many _ _).bind fun path path' hpath => ?_
  have hempty : path'.isEmpty = path.isEmpty := by cases hpath <;> rfl
  rw [hempty]
  refine .ite ((Agree.expect _).bind_eq fun _ => .reject)
    (Agree.here.bind fun place place' hplace => ?_)
  refine bindings_agree.attempt.bind fun content content' hcontent =>
    (Agree.accept _).bind_eq fun _ => ?_
  have hsame : content' = content := by
    cases hcontent with
    | none => rfl
    | some h => rw [h]
  rw [hsame]
  -- inline values are read as templates of their own, each at the place of its pair
  have hempty : k.AlikeRecord .empty .empty := rfl
  have hinlined := inlineVariables_agree hs hinner hplace hempty 0
    ((content.map (Text.splitAt 44)).getD [])
  dsimp only
  generalize inlineVariables s inner place.position 0 .empty _ = inlined,
    inlineVariables s' inner' place'.position 0 .empty _ = inlined' at hinlined ⊢
  cases hinlined with
  | @ok record record' halike =>
    refine build_agree ?_
    have hentries := congrArg InlineRecord.entries halike
    rw [Command.makeWildcard_relabelled, Command.makeWildcard_relabelled, Alike.ofList hpath,
      hs.labels htwin]
    exact congrArg (Command.makeWildcard _ _ · sampling) hentries
  | error h => exact .fail h
  | exhausted_left => exact .exhausted_left
  | exhausted_right => exact .exhausted_right

/-! ## 4. Chunks -/

/-- A chunk is read by the same production. -/
theorem chunk_agree (context : Context) :
    (chunk s inner context).Agree k k.Alike (chunk s' inner' context) :=
  .firstOf (.cons (commentBlock_agree hs) (.cons (probabilityBlock_agree hs hinner)
    (.cons (conditionBlock_agree hs hinner) (.cons (assignment_agree hs hinner)
    (.cons (access_agree hs hinner false) (.cons (wrapBlock_agree hs hinner)
    (.cons (variantBlock_agree hs hinner) (.cons (wildcard_agree hs hinner)
    (.cons (text_agree hs context) .nil)))))))))

/-- Chunks, by induction on the rounds of both sides. -/
theorem chunks_agree (context : Context) (rounds rounds' : Nat) :
    (chunks s inner context rounds).Agree k (List.Forall₂ k.Alike)
      (chunks s' inner' context rounds') := by
  induction rounds generalizing rounds' with
  | zero => exact .exhausted_left
  | succ rounds ih =>
    cases rounds' with
    | zero => exact .exhausted_right
    | succ rounds' =>
      rw [chunks, chunks]
      refine skipComments_agree.bind_eq fun _ =>
        (chunk_agree hs hinner context).attempt.bind fun found found' hfound => ?_
      cases hfound with
      | none => exact .pure .nil
      | some hnext => exact (ih rounds').bind fun _ _ hrest => .pure (.cons hnext hrest)

end Blocks

/-! ## 5. Whole sources -/

/-- Whether a source is a literal without being read. -/
abbrev IsPlain (g : Grammar) (source : Text) : Prop :=
  (source.isAlphanumeric && !(g.openers.any fun opener => source.includes opener)) = true

section Whole

variable {k : Collation}

/-- Two sources that are read agree if their chunks do, and what is wrong at the beginning or
behind the chunks of one is taken for what is wrong there in the other. -/
theorem whole_agree {g : Grammar} {reader reader' : Text → Reader Command} {source source' : Text}
    (hplain : ¬IsPlain g source) (hplain' : ¬IsPlain g source')
    (hstart : ∀ {f f'}, k.noted f f' → k.error (.malformed (leftover source (.start source) f))
      (.malformed (leftover source' (.start source') f')))
    (hleftover : ∀ {c d f f'}, k.twin c d → k.noted f f' →
      k.error (.malformed (leftover source c f)) (.malformed (leftover source' d f')))
    (h : (reader source (.start source) ⟨0, []⟩).Agree k k.Alike
      (reader' source' (.start source') ⟨0, []⟩)) :
    ParseError.Agree k k.Alike (whole g reader source) (whole g reader' source') := by
  rw [whole, whole, if_neg hplain, if_neg hplain']
  generalize reader source (.start source) ⟨0, []⟩ = outcome,
    reader' source' (.start source') ⟨0, []⟩ = outcome' at h ⊢
  cases h with
  | @accepted command command' c d f f' halike twin noted =>
    -- the comments behind the chunks end at twin places, which are at the end or not
    cases hafter : afterComments? (c.rest.length + 1) c with
    | none => simpa only [hafter] using .exhausted_left
    | some after =>
      cases hafter' : afterComments? (d.rest.length + 1) d with
      | none => simpa only [hafter'] using .exhausted_right
      | some after' =>
        obtain ⟨length, rfl, rfl⟩ := afterComments_twin (k.looks twin) hafter hafter'
        simp only [hafter, hafter', ← (k.looks (k.advance twin length)).rest]
        split
        · exact .ok halike
        · exact .error (hleftover (k.advance twin length) noted)
  | rejected noted => exact .error (hstart noted)
  | failed h => exact .error h
  | exhausted_left => exact .exhausted_left
  | exhausted_right => exact .exhausted_right

/-- One source agrees with itself. -/
theorem whole_agree_self {g : Grammar} {reader reader' : Text → Reader Command} {source : Text}
    (hstart : k.twin (.start source) (.start source)) (hnoted : k.noted ⟨0, []⟩ ⟨0, []⟩)
    (h : (reader source).Agree k k.Alike (reader' source)) :
    ParseError.Agree k k.Alike (whole g reader source) (whole g reader' source) := by
  by_cases hplain : IsPlain g source
  · rw [whole, whole, if_pos hplain, if_pos hplain]
    exact .ok (.literal _)
  · exact whole_agree hplain hplain (fun hnoted => k.leftover hstart hnoted source)
      (fun htwin hnoted => k.leftover htwin hnoted source) (h _ _ hstart _ _ hnoted)

/-- The induction is on the depth; the recursive calls of one depth agree with those of
every other, because a call without depth is left open. -/
theorem chunksWith_agree {g : Grammar} (hstart : ∀ source, k.twin (.start source) (.start source))
    (hnoted : k.noted ⟨0, []⟩ ⟨0, []⟩) {origin origin' : Origin} {base base' : List Nat}
    {source source' : Text} (hs : k.Settings ⟨g, origin, base, source⟩ ⟨g, origin', base', source'⟩)
    (depth depth' : Nat) (context : Context) :
    (chunksWith g origin depth base context source).Agree k k.Alike
      (chunksWith g origin' depth' base' context source') := by
  induction depth generalizing depth' base base' context source source' with
  | zero => exact .exhausted_left
  | succ depth ih =>
    cases depth' with
    | zero => exact .exhausted_right
    | succ depth' =>
      have hinner : Inner.Agree k ⟨g, origin, base, source⟩ ⟨g, origin', base', source'⟩
          ⟨chunksWith g origin depth base .block source,
            fun base value => whole g (chunksWith g origin depth base .prompt) value⟩
          ⟨chunksWith g origin' depth' base' .block source',
            fun base value => whole g (chunksWith g origin' depth' base .prompt) value⟩ := by
        refine ⟨ih hs depth' .block, fun {place place'} hplace value => ?_⟩
        -- behind places that correspond, labels go on to correspond
        have hvalue : k.Settings ⟨g, origin, base ++ place, value⟩
            ⟨g, origin', base' ++ place', value⟩ :=
          ⟨rfl, fun hmore => by
            simpa only [List.append_assoc] using hs.label (List.rel_append hplace hmore),
            fun hoffset fault => k.malformed hoffset value fault⟩
        exact whole_agree_self (hstart value) hnoted (ih hvalue depth' .prompt)
      rw [chunksWith, chunksWith]
      refine Agree.here.bind fun c d _ => ?_
      exact (chunks_agree hs hinner context _ _).bind fun _ _ hread => .pure (.ofList hread)

end Whole

/-! ## 6. Templates, loosely -/

/-- Compared loosely, settings of one grammar correspond. -/
theorem settings_loose {s s' : Setting} (h : s'.grammar = s.grammar) :
    Collation.loose.Settings s s' := ⟨h, fun _ => rfl, fun _ _ => .malformed _ _⟩

/-- The chunks of one grammar agree loosely under all origins, and in all sources. -/
theorem chunksWith_agree_loose (g : Grammar) (origin origin' : Origin) (depth depth' : Nat)
    (base base' : List Nat) (context : Context) (source source' : Text) :
    (chunksWith g origin depth base context source).Agree .loose Command.Alike
      (chunksWith g origin' depth' base' context source') :=
  have hs : Collation.loose.Settings ⟨g, origin, base, source⟩ ⟨g, origin', base', source'⟩ :=
    settings_loose rfl
  chunksWith_agree (fun source => Cursor.Twin.refl (.start source)) trivial hs depth depth' context

/-- The two results tell the same: trees that are equal up to labels, or errors of one kind. -/
inductive SameParse : Except ParseError Command → Except ParseError Command → Prop
  | tree {tree other : Command} (h : tree.Alike other) : SameParse (.ok tree) (.ok other)
  | error {error other : ParseError} (h : error.SameKind other) : SameParse (.error error)
    (.error other)

/-- Results that agree and are proper tell the same, for no proper error is left open. -/
theorem sameParse_of_agree {result result' : Except ParseError Command}
    (h : ParseError.Agree .loose Command.Alike result result') (hproper : Proper result)
    (hproper' : Proper result') : SameParse result result' := by
  cases h with
  | ok h => exact .tree h
  | error h => exact .error h
  | exhausted_left => cases hproper
  | exhausted_right => cases hproper'

/-- What is read of one source under two origins is the same. -/
theorem parse_agree {g : Grammar} (hopens : g.Opens) (origin origin' : Origin) (source : Text) :
    SameParse (g.parse origin source) (g.parse origin' source) :=
  sameParse_of_agree
    (whole_agree_self (k := .loose) (Cursor.Twin.refl _) trivial
      (chunksWith_agree_loose g origin origin' _ _ [] [] .prompt source source))
    (parse_proper hopens origin source) (parse_proper hopens origin' source)

/-! ## 7. Templates, exactly -/

/-- One source read twice, with other labels on the nodes of one of the trees. -/
theorem whole_relabelled {g : Grammar} {rename : Label → Label} {origin origin' : Origin}
    {base base' : List Nat}
    (hrename : ∀ place, rename ⟨base ++ place, origin⟩ = ⟨base' ++ place, origin'⟩)
    (depth depth' : Nat) (source : Text) :
    ParseError.Agree (.relabelling rename) (Collation.relabelling rename).Alike
      (whole g (chunksWith g origin depth base .prompt) source)
      (whole g (chunksWith g origin' depth' base' .prompt) source) := by
  refine whole_agree_self rfl rfl (chunksWith_agree (fun _ => rfl) rfl ?_ depth depth' .prompt)
  refine ⟨rfl, fun {place place'} hplace => ?_, fun h fault => by cases h; rfl⟩
  have hsame : place = place' := List.forall₂_eq_eq_eq ▸ hplace
  exact hsame ▸ hrename place

/-- A template read under another origin gives the tree with the labels that this origin makes, or
the same error. -/
theorem parse_relabelled {g : Grammar} (hopens : g.Opens) {rename : Label → Label}
    {origin origin' : Origin} (hrename : ∀ place, rename ⟨place, origin⟩ = ⟨place, origin'⟩)
    (source : Text) :
    g.parse origin' source = (g.parse origin source).map (Command.relabelled rename) := by
  have hagree : ParseError.Agree (.relabelling rename) (Collation.relabelling rename).Alike
      (g.parse origin source) (g.parse origin' source) :=
    whole_relabelled hrename (source.length + 1) (source.length + 1) source
  have hproper := parse_proper hopens origin source
  have hproper' := parse_proper hopens origin' source
  generalize g.parse origin source = mine, g.parse origin' source = yours at hagree hproper hproper'
  cases hagree with
  | @ok tree other halike =>
    exact congrArg Except.ok ((Command.relabelled_id other).symm.trans halike)
  | error hsame => exact congrArg Except.error hsame.symm
  | exhausted_left => cases hproper
  | exhausted_right => cases hproper'

/-- The value of an inline variable fails with the error that it fails with when it is read as
a template, however deep the blocks are around it and wherever its labels begin. -/
theorem parse_of_value_error {g : Grammar} (hopens : g.Opens) {origin : Origin} {depth : Nat}
    {base base' : List Nat} {source value : Text} {error : ParseError}
    (h : (innerAt g origin depth base source).value base' value = .error error)
    (hne : error ≠ .exhausted) : g.parse origin value = .error error := by
  -- the labels of the value go on with the offsets in it wherever it stands
  have hagree := @whole_relabelled g (fun label => ⟨base' ++ label.place, label.origin⟩) origin
    origin [] base' (fun _ => rfl) (value.length + 1) depth value
  have hproper := parse_proper hopens origin value
  have hvalue : whole g (chunksWith g origin depth base' .prompt) value = .error error := h
  rw [hvalue] at hagree
  change ParseError.Agree _ _ (g.parse origin value) _ at hagree
  cases hparse : g.parse origin value with
  | ok tree =>
    rw [hparse] at hagree
    cases hagree with
    | exhausted_right => exact absurd rfl hne
  | error other =>
    rw [hparse] at hagree hproper
    cases hagree with
    | error hsame => rw [hsame]
    | exhausted_left => cases hproper
    | exhausted_right => exact absurd rfl hne

end Template

end PromptTemplate
