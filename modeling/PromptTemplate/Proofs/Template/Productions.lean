/-
`Productions.lean` -- what each production of the template reader ensures.

Every production takes something from the source, and what it makes is a piece: normal,
and the child of a sequence. That is proved for each on its own, over what is assumed of
the two recursive calls (`Inner.Sound`), which are only made where less than some bound
is left. So no lemma here speaks of depth, and each production is one lemma.
-/
import PromptTemplate.Proofs.Command.NormalForm
import PromptTemplate.Proofs.Template.Ensures

set_option autoImplicit false

namespace PromptTemplate

/-! ## 1. Operands -/

/-- Commands put together are trimmed if the last one is, unless two literals side by
side are joined. -/
theorem Command.ofList_isOperand {commands : List Command} (hne : commands ≠ [])
    (hpieces : ∀ command ∈ commands, command.IsPiece) (hchain : commands.IsChain Command.Apart)
    (hlast : ∀ last ∈ commands.getLast?, last.Trimmed) : (Command.ofList commands).IsOperand := by
  refine ⟨?_, Command.ofList_normal (fun command hmem => (hpieces command hmem).child)
    fun command hmem => (hpieces command hmem).normal⟩
  rw [Command.ofList, Command.mergeLiterals_eq_self hchain]
  rcases commands with _ | ⟨first, _ | ⟨second, rest⟩⟩
  · exact absurd rfl hne
  · exact hlast first rfl
  · intro text htext
    simp only [Command.lastText?] at htext
    split at htext
    · next found hfound => exact hlast _ hfound text htext
    · cases htext

/-- What is neither a literal nor a sequence ends in no text. -/
theorem Command.IsChild.trimmed {command : Command} (hchild : command.IsChild)
    (hliteral : ¬command.IsLiteral) : command.Trimmed := by
  cases command with
  | literal text => exact (hliteral trivial).elim
  | sequence children => exact hchild.elim
  | _ => exact nofun

/-- The opening delimiters are not empty, so a block takes something. -/
structure Grammar.Opens (g : Grammar) : Prop where
  variantStart : 0 < g.variantStart.length
  variableStart : 0 < g.variableStart.length
  wrapStart : 0 < g.wrapStart.length
  wildcardWrap : 0 < g.wildcardWrap.length

namespace Template

/-- What is read in a block is an operand once it is trimmed: a literal at its end that is
blank goes away, and what stands before it was none. -/
theorem trimOperand_isOperand {command : Command} (h : command.Everywhere Command.Normal) :
    (trimOperand command).IsOperand := by
  cases command with
  | literal text =>
    refine ⟨fun trimmed htrimmed => ?_, .literal _⟩
    cases htrimmed
    exact Text.isBlank_getLast_trimEnd
  | sequence children =>
    obtain ⟨hlength, hchild, hchain⟩ := h.here
    rw [trimOperand]
    split
    · next text hlast =>
      obtain ⟨init, rfl⟩ := List.getLast?_eq_some_iff.1 hlast
      obtain ⟨hinit, -, hapart⟩ := List.isChain_append.1 hchain
      have hpieces : ∀ part ∈ init, part.IsPiece := fun part hmem =>
        ⟨hchild part (List.mem_append_left _ hmem), h.of_part (List.mem_append_left _ hmem)⟩
      rw [List.dropLast_concat]
      cases htrim : text.trimEnd with
      | nil =>
        -- the literal goes away whole; what stands before it is no literal, and not nothing
        have hne : init ≠ [] := by
          rintro rfl
          simp at hlength
        simp only [List.isEmpty_nil, if_true, List.append_nil]
        refine Command.ofList_isOperand hne hpieces hinit fun last hlast => ?_
        refine (hpieces last (List.mem_of_getLast? hlast)).child.trimmed fun hliteral => ?_
        exact hapart last hlast (.literal text) rfl ⟨hliteral, trivial⟩
      | cons u kept =>
        -- the trimmed literal stands where the literal stood, and is still not empty
        simp only [List.isEmpty_cons, Bool.false_eq_true, if_false]
        refine Command.ofList_isOperand (by simp) (fun part hmem => ?_) ?_ fun last hlast => ?_
        · rcases List.mem_append.1 hmem with hmem | hmem
          · exact hpieces part hmem
          · rw [List.mem_singleton.1 hmem]
            exact ⟨List.cons_ne_nil u kept, .literal _⟩
        · refine List.isChain_append.2 ⟨hinit, .singleton _, fun before hbefore last hlast => ?_⟩
          cases hlast
          exact hapart before hbefore (.literal text) rfl
        · rw [List.getLast?_concat] at hlast
          cases hlast
          intro kept hkept
          cases hkept
          rw [← htrim]
          exact Text.isBlank_getLast_trimEnd
    · next hnone =>
      -- no literal at the end: nothing is trimmed, and there is nothing to trim
      refine ⟨fun text htext => ?_, h⟩
      rw [Command.lastText?] at htext
      split at htext
      · next found hfound => exact (hnone found hfound).elim
      · cases htext
  | _ => exact ⟨Command.IsChild.trimmed trivial id, h⟩

/-- Something was taken, and a piece was made. -/
def Piece (c : Cursor) (command : Command) (after : Cursor) : Prop :=
  after.left < c.left ∧ command.IsPiece

/-! ## 2. Comments and text -/

/-- A comment up to the end of the line begins with a unit that ends no line. -/
theorem left_lineComment {c : Cursor} (h : atLineComment c.previous c.rest = true) :
    (c.skipWhile (· != 10)).left < c.left := by
  -- the comment has at least its first mark, which is no line feed
  have hfirst : ∃ u rest, c.rest = u :: rest ∧ u ≠ 10 := by
    unfold atLineComment at h
    rw [Bool.or_eq_true, Bool.and_eq_true] at h
    rcases h with hsign | ⟨hslashes, -⟩
    · obtain ⟨rest, hrest⟩ := List.head?_eq_some_iff.1 (eq_of_beq hsign)
      exact ⟨35, rest, hrest, by decide⟩
    · obtain ⟨rest, hrest⟩ := List.isPrefixOf_iff_prefix.1 hslashes
      exact ⟨47, 47 :: rest, hrest.symm, by decide⟩
  obtain ⟨u, rest, hrest, hu⟩ := hfirst
  have htaken : 0 < (c.rest.takeWhile (· != 10)).length := by
    rw [hrest, List.takeWhile_cons_of_pos (by simpa using hu)]
    exact Nat.succ_pos _
  have hleft : 0 < c.left := by
    rw [Cursor.left, hrest]
    exact Nat.succ_pos _
  rw [Cursor.skipWhile, Cursor.left_advance]
  omega

/-- A closed comment is at least its four marks long. -/
theorem left_blockComment {c : Cursor} {length : Nat} (h : blockComment? c.rest = some length) :
    (c.advance length).left < c.left := by
  unfold blockComment? at h
  split at h
  · next hopen =>
    obtain ⟨parts, -, hlength⟩ := Option.map_eq_some_iff.1 h
    have hleft : 2 ≤ c.left := (List.isPrefixOf_iff_prefix.1 hopen).length_le
    rw [Cursor.left_advance]
    omega
  · cases h

/-- Each comment takes something, so the rounds suffice for all of them. -/
theorem afterComments_isSome {rounds : Nat} {c : Cursor} (hrounds : c.left < rounds) :
    ∃ after, afterComments? rounds c = some after ∧ after.left ≤ c.left := by
  induction rounds generalizing c with
  | zero => exact absurd hrounds (Nat.not_lt_zero _)
  | succ rounds ih =>
    rw [afterComments?]
    -- either comment takes something, so rounds as many as units are enough
    by_cases hline : atLineComment c.previous c.rest = true
    · have hless := left_lineComment hline
      obtain ⟨after, hafter, hle⟩ := ih (show (c.skipWhile (· != 10)).left < rounds by omega)
      rw [if_pos hline]
      exact ⟨after, hafter, by omega⟩
    · rw [if_neg hline]
      cases hblock : blockComment? c.rest with
      | none => exact ⟨c, rfl, Nat.le_refl _⟩
      | some length =>
        have hless := left_blockComment hblock
        obtain ⟨after, hafter, hle⟩ := ih (show (c.advance length).left < rounds by omega)
        exact ⟨after, hafter, by omega⟩

/-- Skipping comments goes forward. -/
theorem skipComments_ensures {c : Cursor} :
    skipComments.Ensures c fun _ after => after.left ≤ c.left := by
  intro f
  obtain ⟨after, hafter, hle⟩ := afterComments_isSome (Nat.lt_succ_self c.left)
  rw [Cursor.left] at hafter
  rw [skipComments, hafter]
  exact hle

/-- Runs of text are not empty, and if there is one, something was taken. -/
theorem textRuns_ensures (g : Grammar) (context : Context) {rounds : Nat} {c : Cursor}
    (hrounds : c.left < rounds) :
    (textRuns g context rounds).Ensures c fun runs after =>
      after.left ≤ c.left ∧ (∀ run ∈ runs, run ≠ []) ∧ (runs ≠ [] → after.left < c.left) := by
  induction rounds generalizing c with
  | zero => exact absurd hrounds (Nat.not_lt_zero _)
  | succ rounds ih =>
    rw [textRuns]
    refine .bind_here (.ite (fun _ => .pure ⟨Nat.le_refl _, nofun, fun h => absurd rfl h⟩)
      fun hempty => ?_)
    have hrun : plainText g context c.previous c.rest ≠ [] := by simpa using hempty
    have htaken := List.length_pos_iff.2 hrun
    have hleft : 0 < c.left := by
      rw [Cursor.left, List.length_pos_iff]
      rintro hrest
      rw [hrest] at hrun
      exact hrun rfl
    refine (Reader.Ensures.moveTo _).bind fun _ after hafter => ?_
    have hless : after.left < c.left := by
      rw [hafter, Cursor.left_advance]
      omega
    -- however the runs go on, this first run has taken something
    have hlast : ∀ last : Cursor, last.left ≤ after.left →
        last.left ≤ c.left ∧ (∀ run ∈ [plainText g context c.previous c.rest], run ≠ []) ∧
          ([plainText g context c.previous c.rest] ≠ [] → last.left < c.left) := fun last hle =>
      ⟨by omega, List.forall_mem_singleton.2 hrun, fun _ => by omega⟩
    refine .ite (fun _ => .pure (hlast after (Nat.le_refl _))) fun _ => ?_
    refine skipComments_ensures.bind fun commented next hnext => .ite (fun _ => ?_) fun _ =>
      .pure (hlast next hnext)
    refine (ih (show next.left < rounds by omega)).bind fun runs last hruns =>
      .pure ⟨by omega, ?_, fun _ => by omega⟩
    exact List.forall_mem_cons.2 ⟨hrun, hruns.2.1⟩

/-- Text goes forward and is a piece. -/
theorem text_ensures (s : Setting) (context : Context) (c : Cursor) :
    (text s context).Ensures c (Piece c) := by
  rw [text]
  refine .bind_here ((textRuns_ensures s.grammar context (Nat.lt_succ_self c.left)).bind
    fun runs after hruns => ?_)
  refine .ite (fun _ => (Reader.Ensures.expect _).bind fun _ _ _ => .reject) fun hempty => .pure ?_
  have hne : runs ≠ [] := by simpa using hempty
  refine ⟨hruns.2.2 hne, fun hjoin => ?_, .literal _⟩
  -- the first run is not empty, so neither is the text
  rcases runs with _ | ⟨first, _ | ⟨second, rest⟩⟩
  · exact hne rfl
  · exact hruns.2.1 first List.mem_cons_self hjoin
  · simp only [Text.join, List.append_eq_nil_iff] at hjoin
    exact hruns.2.1 first List.mem_cons_self hjoin.1.1

/-! ## 3. What the productions are over -/

/-- A normal tree, or a proper error. -/
def Proper (result : Except ParseError Command) : Prop :=
  match result with
  | .ok command => command.Everywhere Command.Normal
  | .error error => error.Proper

/-- The recursive calls make normal trees where less than the bound is left. -/
structure Inner.Sound (inner : Inner) (bound : Nat) : Prop where
  block : ∀ c : Cursor, c.left < bound → inner.block.Ensures c fun command after =>
    after.left ≤ c.left ∧ command.Everywhere Command.Normal
  value : ∀ (base : List Nat) (value : Text), value.length < bound → Proper (inner.value base value)

/-- A fault that is no pattern is an error of the source; one that is, names its own. -/
theorem failAt_ensures {α : Type} {s : Setting} {position : Nat} {fault : SyntaxFault} {c : Cursor}
    {post : α → Cursor → Prop}
    (only : ∀ cause, fault = .pattern cause → ∃ source fault, cause = .pattern source fault) :
    (failAt s position fault).Ensures c post := .fail (.malformed _ only)

/-- A node that a constructor makes is a piece. -/
theorem build_ensures {made : Except BuildError Command} (hmade : Command.Makes made)
    {start c : Cursor} (hless : c.left < start.left) : (build made).Ensures c (Piece start) := by
  unfold build
  cases made with
  | ok command => exact Reader.Ensures.pure ⟨hless, hmade⟩
  | error error =>
    obtain ⟨least, most, hinverted, rfl⟩ := hmade
    exact .fail (.inverted least most hinverted)

/-- What goes on from the beginning of a name is a name. -/
theorem isVariableName_takeWhile {t : Text} (h : t.head?.any beginsVariable = true) :
    isVariableName (t.takeWhile continuesVariable) = true := by
  cases t with
  | nil => cases h
  | cons u rest =>
    have hu : beginsVariable u = true := by simpa using h
    have hcontinues : continuesVariable u = true := by simp [continuesVariable, hu]
    rw [List.takeWhile_cons_of_pos hcontinues, isVariableName, hu, List.all_takeWhile]
    rfl

/-- A name of a variable goes forward. -/
theorem variableName_ensures {c : Cursor} : variableName.Ensures c fun name after =>
    after.left ≤ c.left ∧ isVariableName name = true := by
  rw [variableName]
  refine .bind_here (.ite (fun hfirst => ?_) fun _ => (Reader.Ensures.expect _).bind fun _ _ _ =>
    .reject)
  refine (Reader.Ensures.takeWhile _).mono fun name after htaken => ?_
  obtain ⟨rfl, rfl⟩ := htaken
  exact ⟨Cursor.left_skipWhile_le _ c, isVariableName_takeWhile hfirst⟩

/-- A number that a template writes is a natural number scaled by a power of ten. -/
theorem ofText_of_splitReal {t taken rest : Text} (h : splitReal? t = some (taken, rest)) :
    ∃ mantissa exponent, Number.ofText taken = Decimal.scale mantissa exponent := by
  have hdigits : ∀ t : Text, ∀ u ∈ (Decimal.takeDigits t).1, u.isDigit = true := fun t u hu =>
    List.all_eq_true.1 List.all_takeWhile u hu
  unfold splitReal? at h
  dsimp only at h
  -- with a point, digits may be missing on one side of it but not on both
  split at h
  · next more hpoint =>
    by_cases hnone :
        ((Decimal.takeDigits t).1.isEmpty && (Decimal.takeDigits more).1.isEmpty) = true
    · rw [if_pos hnone] at h
      cases h
    · rw [if_neg hnone] at h
      cases h
      exact ⟨_, _, Number.ofText_point (Bool.eq_false_iff.2 hnone) (hdigits t) (hdigits more)⟩
  · by_cases hnone : (Decimal.takeDigits t).1.isEmpty = true
    · rw [if_pos hnone] at h
      cases h
    · rw [if_neg hnone] at h
      cases h
      exact ⟨_, _, Number.ofText_digits (by simpa using hnone) (hdigits t)⟩

/-- A decimal that is read is not negative. -/
theorem real_ensures {c : Cursor} : real.Ensures c fun digits after =>
    after.left ≤ c.left ∧ (Number.ofText digits).Nonneg := by
  intro f
  rw [real]
  cases hsplit : splitReal? c.rest with
  | none => trivial
  | some parts =>
    obtain ⟨mantissa, exponent, hscale⟩ := ofText_of_splitReal hsplit
    refine ⟨?_, hscale ▸ Decimal.scale_nonneg mantissa exponent⟩
    rw [Cursor.left_advance]
    omega

/-- A marker goes forward. -/
theorem sampler_ensures {c : Cursor} : sampler.Ensures c fun _ after => after.left ≤ c.left := by
  intro f
  rw [sampler]
  split
  · exact Nat.le_trans (Nat.le_of_eq (Cursor.left_advance 1 c)) (Nat.sub_le _ _)
  · exact Nat.le_refl _

section Blocks

variable {s : Setting} {inner : Inner} {bound : Nat} {c : Cursor} (hopens : s.grammar.Opens)
  (hinner : inner.Sound bound)

include hinner in

/-- An operand is read by the reader inside, and trimmed. -/
theorem operand_ensures (hbound : c.left < bound) : (operand inner).Ensures c fun command after =>
    after.left ≤ c.left ∧ command.IsOperand := by
  rw [operand]
  refine Reader.Ensures.skipBlanks.bind fun _ next hnext => ?_
  refine (hinner.block next (by omega)).bind fun command after hread => .pure ⟨by omega, ?_⟩
  exact trimOperand_isOperand hread.2

/-! ## 4. Blocks of variants -/

include hopens in

/-- A comment goes forward and is a piece. -/
theorem commentBlock_ensures : (commentBlock s).Ensures c (Piece c) := by
  rw [commentBlock]
  refine (Reader.Ensures.accept _).bind fun _ opened hopened => ?_
  have hopen := hopens.variantStart
  refine Reader.Ensures.skipBlanks.bind fun _ place hplace => ?_
  refine (Reader.Ensures.tryAccept _).bind fun starred next hnext => .ite (fun _ => ?_) fun _ =>
    .reject
  refine .bind_here ((Reader.Ensures.moveTo _).bind fun _ behind hbehind => ?_)
  -- only what is left counts: every step takes something or nothing, and
  -- the opening mark takes one
  have hle : behind.left ≤ next.left := by
    rw [hbehind, Cursor.left_advance]
    omega
  refine (Reader.Ensures.accept _).bind fun _ first hfirst =>
    Reader.Ensures.skipBlanks.bind fun _ second hsecond => ?_
  refine (Reader.Ensures.accept _).bind fun _ last hlast =>
    .pure ⟨by omega, trivial, .node _ trivial nofun⟩

include hopens hinner in

/-- A part with a chance is built, because the chance is not negative. -/
theorem probabilityBlock_ensures (hbound : c.left ≤ bound) :
    (probabilityBlock s inner).Ensures c (Piece c) := by
  rw [probabilityBlock]
  refine .bind_here ((Reader.Ensures.accept _).bind fun _ opened hopened => ?_)
  have hopen := hopens.variantStart
  refine Reader.Ensures.skipBlanks.bind fun _ place hplace =>
    real_ensures.attempt.bind fun found next hnext => ?_
  cases found with
  | none => exact (Reader.Ensures.expect _).bind fun _ _ _ => .reject
  | some chance =>
    obtain ⟨hle, hchance⟩ := hnext.1 chance rfl
    -- what each step leaves is all that is used of it; the arithmetic is done at the end
    refine (Reader.Ensures.accept _).bind fun _ governed hgoverned => ?_
    refine (operand_ensures hinner (by omega)).bind fun value behind hvalue => ?_
    refine Reader.Ensures.skipBlanks.bind fun _ end' hend =>
      (Reader.Ensures.accept _).bind fun _ last hlast => ?_
    exact build_ensures (Command.makeProbability_makes _ hchance hvalue.2) (by omega)

/-- A key that is split off a pattern is the name of a variable. -/
theorem splitKey_isVariableName {t : Text} : ∀ key ∈ (splitKey t).1, isVariableName key = true := by
  intro key hkey
  unfold splitKey at hkey
  split at hkey
  · next hfirst =>
    dsimp only at hkey
    split at hkey
    · cases hkey
      exact isVariableName_takeWhile hfirst
    · cases hkey
  · cases hkey

/-- A branch that can stand in a condition. -/
def IsBranch (branch : Command.BranchInput) : Prop :=
  (∀ key ∈ branch.key, isVariableName key = true) ∧ branch.value.IsOperand

/-- A pattern goes forward. -/
theorem pattern_ensures : (pattern s).Ensures c fun _ after => after.left ≤ c.left := by
  rw [pattern]
  refine .bind_here ?_
  split
  · exact .reject
  · refine (Reader.Ensures.moveTo _).bind fun _ behind hbehind => ?_
    have hle : behind.left ≤ c.left := by
      rw [hbehind, Cursor.left_advance]
      omega
    refine (Reader.Ensures.accept _).bind fun _ last hlast => .ite (fun _ => .reject) fun _ =>
      .pure (by omega)

include hinner in

/-- A branch has a key that is a name, and an operand. -/
theorem branch_ensures (hbound : c.left < bound) : (branch s inner).Ensures c fun branch after =>
    after.left ≤ c.left ∧ IsBranch branch := by
  rw [branch]
  refine pattern_ensures.bind fun source next hnext => ?_
  refine (operand_ensures hinner (by omega)).bind fun value last hvalue =>
    .pure ⟨by omega, ?_, hvalue.2⟩
  exact splitKey_isVariableName

include hinner in

/-- Further branches, by induction on the rounds, which are more than the units that are left. -/
theorem moreBranches_ensures {rounds : Nat} (hrounds : c.left < rounds) (hbound : c.left < bound) :
    (moreBranches s inner rounds).Ensures c fun rest after =>
      after.left ≤ c.left ∧ (∀ branch ∈ rest.1, IsBranch branch) ∧ rest.2.IsOperand := by
  have hempty : (Command.literal []).IsOperand :=
    ⟨fun text htext => by cases htext; exact nofun, .literal _⟩
  induction rounds generalizing c with
  | zero => exact absurd hrounds (Nat.not_lt_zero _)
  | succ rounds ih =>
    rw [moreBranches]
    refine (Reader.Ensures.tryAccept _).bind fun barred next hnext => ?_
    refine .ite (fun hbarred => ?_) fun _ => .pure ⟨hnext.1, nofun, hempty⟩
    have hless : next.left + 1 ≤ c.left := hnext.2 hbarred
    have hbranch : (do Reader.skipBlanks; branch s inner : Reader Command.BranchInput).Ensures next
        fun branch after => after.left ≤ next.left ∧ IsBranch branch :=
      Reader.Ensures.skipBlanks.bind fun _ place hplace =>
        (branch_ensures hinner (by omega)).mono fun branch after hafter => ⟨by omega, hafter.2⟩
    refine hbranch.attempt.bind fun found after hfound => ?_
    cases found with
    | none =>
      -- a rejected branch gives back the source behind the bar
      rw [hfound.2 rfl]
      refine (operand_ensures hinner (by omega)).bind fun otherwise last hlast =>
        .pure ⟨by omega, nofun, hlast.2⟩
    | some branch =>
      obtain ⟨hle, hgood⟩ := hfound.1 branch rfl
      refine (ih (by omega) (by omega)).bind fun rest last hrest => .pure ⟨by omega, ?_, hrest.2.2⟩
      exact List.forall_mem_cons.2 ⟨hgood, hrest.2.1⟩

include hopens hinner in

/-- A condition is built, because its patterns compile or are errors before. -/
theorem conditionBlock_ensures (hbound : c.left ≤ bound) :
    (conditionBlock s inner).Ensures c (Piece c) := by
  rw [conditionBlock]
  refine (Reader.Ensures.accept _).bind fun _ opened hopened => .bind_here ?_
  have hopen := hopens.variantStart
  refine (branch_ensures hinner (by omega)).bind fun first next hfirst => ?_
  refine (moreBranches_ensures hinner (show next.left < opened.left + 1 by omega) (by omega)).bind
    fun rest behind hrest => ?_
  refine Reader.Ensures.skipBlanks.bind fun _ place hplace =>
    (Reader.Ensures.accept _).bind fun _ last hlast => ?_
  have hmakes := Command.makeCondition_makes (List.cons_ne_nil first rest.1)
    (List.forall_mem_cons.2 ⟨hfirst.2, hrest.2.1⟩) hrest.2.2
  rcases hmakes with ⟨source, fault, herror⟩ | ⟨command, hmade, hpiece⟩
  · -- the constructor's error becomes one of the source
    rw [herror]
    refine failAt_ensures fun cause hcause => ?_
    cases hcause
    exact ⟨source, fault, rfl⟩
  · rw [hmade]
    exact .pure ⟨by omega, hpiece⟩

/-- Bounds go forward. -/
theorem bounds_ensures : (bounds s).Ensures c fun _ after => after.left ≤ c.left := by
  -- each part of the bounds only takes from what is left
  have hdigits : ∀ c : Cursor, (Reader.takeWhile CodeUnit.isDigit).Ensures c fun _ after =>
      after.left ≤ c.left := by
    intro c
    refine (Reader.Ensures.takeWhile _).mono fun taken after hafter => ?_
    rw [hafter.2]
    exact Cursor.left_skipWhile_le _ c
  have hupper : ∀ lower c, (upperDigits lower).Ensures c fun _ after => after.left ≤ c.left := by
    intro lower c
    rw [upperDigits]
    refine (Reader.Ensures.tryAccept _).bind fun hyphen next hnext =>
      .ite (fun _ => ?_) fun _ => .pure hnext.1
    exact (hdigits next).mono fun taken after hafter => by omega
  have hseparator : ∀ c, (rawSeparator s).Ensures c fun _ after => after.left ≤ c.left := by
    intro c
    rw [rawSeparator]
    refine (Reader.Ensures.takeWhile _).bind fun raw next hnext =>
      .ite (fun _ => .reject) fun _ => ?_
    have hle : next.left ≤ c.left := by
      rw [hnext.2]
      exact Cursor.left_skipWhile_le _ c
    exact (Reader.Ensures.accept _).bind fun _ last hlast => .pure (by omega)
  rw [bounds]
  refine .bind_here ((hdigits c).bind fun lower first hfirst =>
    (hupper lower first).bind fun upper second hsecond => ?_)
  refine .ite (fun _ => .reject) fun _ => (Reader.Ensures.accept _).bind fun _ third hthird => ?_
  refine .ite (fun _ => failAt_ensures nofun) fun _ =>
    (hseparator third).attempt.bind fun separator last hlast => ?_
  cases separator with
  | none =>
    rw [hlast.2 rfl]
    exact .pure (by omega)
  | some raw =>
    have hle := hlast.1 raw rfl
    exact .pure (by omega)

/-- A weight that is accepted is not negative. -/
theorem weight_ensures (start : Cursor) : (weight s start).Ensures c fun weight after =>
    after.left ≤ c.left ∧ ∃ q : Rat, 0 ≤ q ∧ weight = .finite q := by
  rw [weight]
  refine real_ensures.bind fun digits next hdigits =>
    (Reader.Ensures.tryAccept _).bind fun marked last hlast => ?_
  refine .ite (fun _ => ?_) fun _ => .reject
  obtain ⟨hle, hinfinite | ⟨q, hq, hfinite⟩⟩ := hdigits
  · rw [hinfinite]
    exact failAt_ensures nofun
  · rw [hfinite]
    exact .pure ⟨by omega, q, hq, rfl⟩

/-- An option that can stand in a variant. -/
def IsOption (option : Option Number × Command) : Prop :=
  (∀ weight ∈ option.1, ∃ q : Rat, 0 ≤ q ∧ weight = .finite q) ∧ option.2.IsOperand

include hinner in

/-- An option has a weight that is not negative, and an operand. -/
theorem option_ensures (hbound : c.left < bound) : (option s inner).Ensures c fun option after =>
    after.left ≤ c.left ∧ IsOption option := by
  rw [option]
  refine Reader.Ensures.skipBlanks.bind fun _ place hplace => .bind_here ?_
  refine (weight_ensures place).attempt.bind fun weight next hnext => ?_
  -- where no weight was read the place is as before, and the option weighs one
  have hle : next.left ≤ place.left ∧ ∀ given ∈ weight, ∃ q : Rat, 0 ≤ q ∧ given = .finite q := by
    cases weight with
    | none =>
      rw [hnext.2 rfl]
      exact ⟨Nat.le_refl _, nofun⟩
    | some given =>
      obtain ⟨hle, hgiven⟩ := hnext.1 given rfl
      exact ⟨hle, fun other hother => by cases hother; exact hgiven⟩
  exact (operand_ensures hinner (by omega)).bind fun value last hlast =>
    .pure ⟨by omega, hle.2, hlast.2⟩

include hinner in

/-- Further options, by induction on the rounds, which are more than the units that are left. -/
theorem moreOptions_ensures {rounds : Nat} (hrounds : c.left < rounds) (hbound : c.left < bound) :
    (moreOptions s inner rounds).Ensures c fun rest after =>
      after.left ≤ c.left ∧ ∀ option ∈ rest, IsOption option := by
  induction rounds generalizing c with
  | zero => exact absurd hrounds (Nat.not_lt_zero _)
  | succ rounds ih =>
    rw [moreOptions]
    refine (Reader.Ensures.tryAccept _).bind fun barred next hnext => ?_
    refine .ite (fun hbarred => ?_) fun _ => .pure ⟨hnext.1, nofun⟩
    -- the bar is what makes the rounds and the bound go down
    have hless : next.left + 1 ≤ c.left := hnext.2 hbarred
    refine (option_ensures hinner (by omega)).bind fun option after hafter => ?_
    refine (ih (by omega) (by omega)).bind fun rest last hrest => .pure ⟨by omega, ?_⟩
    exact List.forall_mem_cons.2 ⟨hafter.2, hrest.2⟩

include hopens hinner in

/-- A variant is built, or its bounds are the wrong way round. -/
theorem variantBlock_ensures (hbound : c.left ≤ bound) :
    (variantBlock s inner).Ensures c (Piece c) := by
  rw [variantBlock]
  refine .bind_here ((Reader.Ensures.accept _).bind fun _ opened hopened => ?_)
  have hopen := hopens.variantStart
  refine Reader.Ensures.skipBlanks.bind fun _ place hplace =>
    sampler_ensures.bind fun sampling marked hmarked => ?_
  refine bounds_ensures.attempt.bind fun declared next hnext => ?_
  have hle : next.left ≤ marked.left := by
    cases declared with
    | none => exact Nat.le_of_eq (congrArg Cursor.left (hnext.2 rfl))
    | some bounds => exact hnext.1 bounds rfl
  refine (option_ensures hinner (by omega)).bind fun first behind hfirst => ?_
  refine (moreOptions_ensures hinner (show behind.left < c.left + 1 by omega) (by omega)).bind
    fun rest after hrest => ?_
  refine Reader.Ensures.skipBlanks.bind fun _ before hbefore => ?_
  refine (Reader.Ensures.accept _).attempt.bind fun closed last hlast => ?_
  cases closed with
  | none => exact (Reader.Ensures.expect _).bind fun _ _ _ => .reject
  | some closed =>
    have hclosed := hlast.1 closed rfl
    -- the options are what the constructor asks for, so it makes a variant or says why it does not
    have hoptions : ∀ option ∈ first :: rest, IsOption option :=
      List.forall_mem_cons.2 ⟨hfirst.2, hrest.2⟩
    refine build_ensures ?_ (by omega)
    exact Command.makeVariant_makes _ (List.cons_ne_nil first rest)
      (fun option hmem => (hoptions option hmem).1)
      (fun option hmem => (hoptions option hmem).2) _ _ _ _

/-! ## 5. Variables and wraps -/

include hopens hinner in

/-- An assignment is built, because its name is one. -/
theorem assignment_ensures (hbound : c.left ≤ bound) :
    (assignment s inner).Ensures c (Piece c) := by
  rw [assignment]
  refine (Reader.Ensures.accept _).bind fun _ opened hopened => ?_
  have hopen := hopens.variableStart
  refine Reader.Ensures.skipBlanks.bind fun _ first hfirst =>
    variableName_ensures.bind fun name named hnamed => ?_
  refine Reader.Ensures.skipBlanks.bind fun _ second hsecond => ?_
  refine (Reader.Ensures.tryAccept _).bind fun preserve third hthird => ?_
  refine (Reader.Ensures.accept _).bind fun _ fourth hfourth => ?_
  refine (Reader.Ensures.tryAccept _).bind fun immediate fifth hfifth => ?_
  refine (operand_ensures hinner (by omega)).bind fun value sixth hvalue => ?_
  refine Reader.Ensures.skipBlanks.bind fun _ seventh hseventh =>
    (Reader.Ensures.accept _).bind fun _ last hlast => ?_
  -- every token and every skip leaves less or as much, and the first token leaves less
  exact build_ensures (Command.makeAssignment_makes hnamed.2 hvalue.2 _ _) (by omega)

include hinner in

/-- A default is an operand. -/
theorem fallback_ensures (hbound : c.left < bound) :
    (fallback inner).Ensures c fun fallback after =>
      after.left ≤ c.left ∧ ∀ command ∈ fallback, command.IsOperand := by
  rw [fallback]
  refine (Reader.Ensures.tryAccept _).bind fun coloned next hnext => .ite (fun _ => ?_) fun _ =>
    .pure ⟨hnext.1, nofun⟩
  refine (operand_ensures hinner (by omega)).bind fun command last hlast =>
    .pure ⟨by omega, fun other hother => ?_⟩
  cases hother
  exact hlast.2

/-- The name of a variable does not end in a blank. -/
theorem literal_isOperand_of_isVariableName {name : Text} (h : isVariableName name = true) :
    (Command.literal name).IsOperand := by
  refine ⟨fun text htext u hu => ?_, .literal name⟩
  cases htext
  have hprintable :=
    toNat_of_continuesVariable (continuesVariable_of_mem h u (List.mem_of_getLast? hu))
  exact CodeUnit.isBlank_eq_false hprintable.1 hprintable.2

include hopens hinner in

/-- Reading a variable is built, because its name is one. -/
theorem access_ensures (inPath : Bool) (hbound : c.left ≤ bound) :
    (access s inner inPath).Ensures c (Piece c) := by
  rw [access]
  refine (Reader.Ensures.accept _).bind fun _ opened hopened => ?_
  have hopen := hopens.variableStart
  refine Reader.Ensures.skipBlanks.bind fun _ first hfirst =>
    variableName_ensures.bind fun name named hnamed => ?_
  refine Reader.Ensures.skipBlanks.bind fun _ second hsecond => ?_
  refine (fallback_ensures hinner (by omega)).bind fun fallback third hfallback => ?_
  refine Reader.Ensures.skipBlanks.bind fun _ fourth hfourth =>
    (Reader.Ensures.accept _).bind fun _ last hlast => ?_
  refine build_ensures (Command.makeAccess_makes hnamed.2 fun command hcommand => ?_) (by omega)
  cases inPath with
  | false => exact hfallback.2 command hcommand
  | true =>
    -- in a path a variable without a default has its own name for one
    cases hcommand
    cases fallback with
    | none => exact literal_isOperand_of_isVariableName hnamed.2
    | some command => exact hfallback.2 command rfl

include hopens hinner in

/-- A wrapping goes forward and is a piece. -/
theorem wrapBlock_ensures (hbound : c.left ≤ bound) : (wrapBlock s inner).Ensures c (Piece c) := by
  rw [wrapBlock]
  refine (Reader.Ensures.accept _).bind fun _ opened hopened => ?_
  have hopen := hopens.wrapStart
  refine (operand_ensures hinner (by omega)).bind fun wrapper first hwrapper => ?_
  refine Reader.Ensures.skipBlanks.bind fun _ second hsecond =>
    (Reader.Ensures.accept _).bind fun _ third hthird => ?_
  refine (operand_ensures hinner (by omega)).bind fun wrapped fourth hwrapped => ?_
  refine Reader.Ensures.skipBlanks.bind fun _ fifth hfifth =>
    (Reader.Ensures.accept _).bind fun _ last hlast => .pure ?_
  refine ⟨by omega, trivial, .node _ ⟨hwrapper.2.trimmed, hwrapped.2.trimmed⟩ ?_⟩
  exact List.forall_mem_cons.2 ⟨hwrapper.2.normal, List.forall_mem_singleton.2 hwrapped.2.normal⟩

/-! ## 6. Wildcards -/

include hopens hinner in

/-- A piece of a path goes forward and is a piece. -/
theorem pathChunk_ensures (hbound : c.left ≤ bound) : (pathChunk s inner).Ensures c (Piece c) := by
  rw [pathChunk]
  refine .firstOf (List.forall_mem_cons.2 ⟨access_ensures hopens hinner true hbound, ?_⟩)
  refine List.forall_mem_cons.2 ⟨variantBlock_ensures hopens hinner hbound, ?_⟩
  exact List.forall_mem_singleton.2 (text_ensures s .path c)

/-- The pairs of a wildcard are no longer than what is left. -/
theorem bindings_ensures : bindings.Ensures c fun content after =>
    after.left ≤ c.left ∧ content.length ≤ c.left := by
  rw [bindings]
  refine Reader.Ensures.skipBlanks.bind fun _ first hfirst =>
    (Reader.Ensures.accept _).bind fun _ second hsecond => ?_
  refine (Reader.Ensures.takeWhile _).bind fun content third hthird =>
    .ite (fun _ => .reject) fun _ => ?_
  have hle : third.left ≤ second.left ∧ content.length ≤ second.left := by
    rw [hthird.1, hthird.2]
    exact ⟨Cursor.left_skipWhile_le _ second, (List.takeWhile_prefix _).length_le⟩
  exact (Reader.Ensures.accept _).bind fun _ last hlast => .pure (by omega)

/-- The name and the value of an inline variable stand in its pair. -/
theorem infix_splitBinding (pair : Text) :
    (splitBinding pair).1 <:+: pair ∧ (splitBinding pair).2 <:+: pair := by
  unfold splitBinding
  split
  · next name value hcut =>
    obtain ⟨hname, hvalue⟩ := Text.prefix_of_cut hcut
    exact ⟨(Text.trim_infix name).trans hname.isInfix, (Text.trim_infix value).trans hvalue.isInfix⟩
  · exact ⟨Text.trim_infix pair, List.nil_infix⟩

/-- What an inline variable is, the rest of the variables being so already. -/
theorem forall_setVariable {α : Type} {p : Text → α → Prop} {name : Text} {value : α}
    {inlined : List (Text × α)} (hinlined : ∀ v ∈ inlined, p v.1 v.2) (hvalue : p name value) :
    ∀ v ∈ setVariable name value inlined, p v.1 v.2 := by
  -- either the value of a name that is there, or a new name at the end
  unfold setVariable
  split
  · intro v hv
    obtain ⟨given, hgiven, rfl⟩ := List.mem_map.1 hv
    by_cases hname : given.1 = name
    · rw [if_pos hname]
      exact hvalue
    · rw [if_neg hname]
      exact hinlined given hgiven
  · intro v hv
    rcases List.mem_append.1 hv with hv | hv
    · exact hinlined v hv
    · rw [List.mem_singleton.1 hv]
      exact hvalue

/-- What a record takes: the tree that it inherits from, or an entry. -/
theorem InlineRecord.of_set_eq_some {record after : InlineRecord} {name : Text} {value : Command}
    (h : record.set name value = some after) :
    (name = unboundName ∧ after = { record with inherited := some value }) ∨
      name ≠ unboundName ∧ record.refuses name = false ∧
        after = { record with entries := setVariable name value record.entries } := by
  unfold InlineRecord.set at h
  by_cases hname : name = unboundName
  · rw [if_pos hname] at h
    exact .inl ⟨hname, (Option.some.inj h).symm⟩
  · rw [if_neg hname] at h
    cases hrefuses : record.refuses name with
    | true => simp [hrefuses] at h
    | false =>
      rw [hrefuses, if_neg Bool.false_ne_true] at h
      exact .inr ⟨hname, rfl, (Option.some.inj h).symm⟩

/-- What a record refuses: a field of the tree that it inherits from. -/
theorem InlineRecord.of_set_eq_none {record : InlineRecord} {name : Text} {value : Command}
    (h : record.set name value = none) :
    ∃ node, record.inherited = some node ∧ name ∈ node.fields := by
  unfold InlineRecord.set at h
  split at h
  · cases h
  · split at h
    · next hrefuses =>
      rw [InlineRecord.refuses, Bool.and_eq_true, Option.any_eq_true] at hrefuses
      obtain ⟨-, node, hnode, hfield⟩ := hrefuses
      exact ⟨node, hnode, List.contains_iff_mem.1 hfield⟩
    · cases h

/-- What the entries of a record are, the value that it takes being so. -/
theorem InlineRecord.forall_set {p : Text → Command → Prop} {record after : InlineRecord}
    {name : Text} {value : Command} (h : record.set name value = some after)
    (hrecord : ∀ v ∈ record.entries, p v.1 v.2) (hvalue : p name value) :
    ∀ v ∈ after.entries, p v.1 v.2 := by
  rcases of_set_eq_some h with ⟨-, rfl⟩ | ⟨-, -, rfl⟩
  · exact hrecord
  · exact forall_setVariable hrecord hvalue

include hinner in
/-- Inline variables are normal trees under names of variables, or there is a proper
error. -/
theorem inlineVariables_proper (position index : Nat) (record : InlineRecord)
    {pairs : List Text} (hpairs : ∀ pair ∈ pairs, pair.length < bound)
    (hrecord : ∀ v ∈ record.entries, isVariableName v.1 = true ∧ v.2.Everywhere Command.Normal) :
    match inlineVariables s inner position index record pairs with
    | .ok after => ∀ v ∈ after.entries, isVariableName v.1 = true ∧ v.2.Everywhere Command.Normal
    | .error error => error.Proper := by
  induction pairs generalizing index record with
  | nil => exact hrecord
  | cons pair pairs ih =>
    -- the value is shorter than the bound, as it is a part of the pair
    have hvalue := hinner.value (s.base ++ [position, index]) (splitBinding pair).2
      (Nat.lt_of_le_of_lt (infix_splitBinding pair).2.length_le (hpairs pair List.mem_cons_self))
    rw [inlineVariables]
    by_cases hname : (!isVariableName (splitBinding pair).1) = true
    · simp only [if_pos hname]
      exact .malformed _ nofun
    · simp only [if_neg hname]
      cases hinlined : inner.value (s.base ++ [position, index]) (splitBinding pair).2 with
      | error error =>
        rw [hinlined] at hvalue
        exact hvalue
      | ok command =>
        rw [hinlined] at hvalue
        dsimp only
        cases hset : record.set (splitBinding pair).1 command with
        | none =>
          obtain ⟨node, -, hfield⟩ := InlineRecord.of_set_eq_none hset
          exact .readOnly _ _ node hfield
        | some after =>
          refine ih _ _ (fun other hmem => hpairs other (List.mem_cons_of_mem _ hmem)) ?_
          exact InlineRecord.forall_set
            (p := fun name (command : Command) => isVariableName name = true ∧
              command.Everywhere Command.Normal)
            hset hrecord ⟨by simpa using hname, hvalue⟩

include hopens hinner in

/-- A wildcard is built, because the names of its inline variables are names. -/
theorem wildcard_ensures (hbound : c.left ≤ bound) : (wildcard s inner).Ensures c (Piece c) := by
  rw [wildcard]
  refine .bind_here ((Reader.Ensures.accept _).bind fun _ opened hopened => ?_)
  have hopen := hopens.wildcardWrap
  refine sampler_ensures.bind fun sampling marked hmarked => ?_
  have hpath : ∀ place : Cursor, place.left ≤ bound →
      (pathChunk s inner).Ensures place fun part after => after.left < place.left ∧ part.IsPiece :=
    fun place hplace => pathChunk_ensures hopens hinner hplace
  refine (Reader.Ensures.many hpath (show marked.left < c.left + 1 by omega) (by omega)).bind
    fun path named hnamed => ?_
  refine .ite (fun _ => (Reader.Ensures.expect _).bind fun _ _ _ => .reject) fun hempty =>
    .bind_here ?_
  have hne : path ≠ [] := by simpa using hempty
  refine bindings_ensures.attempt.bind fun content behind hbehind =>
    (Reader.Ensures.accept _).bind fun _ last hlast => ?_
  -- the values are pieces of what was left behind the path, so a call may read them
  have hcontent : behind.left ≤ named.left ∧
      ∀ pair ∈ (content.map (Text.splitAt 44)).getD [], pair.length < bound := by
    cases content with
    | none =>
      rw [hbehind.2 rfl]
      exact ⟨Nat.le_refl _, nofun⟩
    | some content =>
      obtain ⟨hle, hlength⟩ := hbehind.1 content rfl
      refine ⟨hle, fun pair hpair => ?_⟩
      have hpiece := (Text.infix_of_mem_splitAt.2 pair hpair).length_le
      omega
  have hinlined := inlineVariables_proper (s := s) hinner named.position 0 .empty hcontent.2 nofun
  dsimp only
  split
  · next error herror =>
    rw [herror] at hinlined
    exact .fail hinlined
  · next record hok =>
    rw [hok] at hinlined
    exact build_ensures (Command.makeWildcard_makes _ hne hnamed.2 hinlined _) (by omega)

/-! ## 7. Chunks -/

include hopens hinner in

/-- Every production goes forward, and what it gives is a piece. -/
theorem chunk_ensures (context : Context) (hbound : c.left ≤ bound) :
    (chunk s inner context).Ensures c (Piece c) := by
  rw [chunk]
  refine .firstOf fun reader hreader => ?_
  simp only [List.mem_cons, List.not_mem_nil, or_false] at hreader
  -- one line for each production, in the order in which they are tried
  rcases hreader with rfl | rfl | rfl | rfl | rfl | rfl | rfl | rfl | rfl
  · exact commentBlock_ensures hopens
  · exact probabilityBlock_ensures hopens hinner hbound
  · exact conditionBlock_ensures hopens hinner hbound
  · exact assignment_ensures hopens hinner hbound
  · exact access_ensures hopens hinner false hbound
  · exact wrapBlock_ensures hopens hinner hbound
  · exact variantBlock_ensures hopens hinner hbound
  · exact wildcard_ensures hopens hinner hbound
  · exact text_ensures s context c

include hopens hinner in

/-- Chunks, by induction on the rounds, which are more than the units that are left. -/
theorem chunks_ensures (context : Context) {rounds : Nat} (hrounds : c.left < rounds)
    (hbound : c.left ≤ bound) :
    (chunks s inner context rounds).Ensures c fun read after =>
      after.left ≤ c.left ∧ ∀ command ∈ read, command.IsPiece := by
  induction rounds generalizing c with
  | zero => exact absurd hrounds (Nat.not_lt_zero _)
  | succ rounds ih =>
    rw [chunks]
    refine skipComments_ensures.bind fun _ place hplace => ?_
    -- a chunk takes something, so the rounds last; without one the cursor is where it was
    refine (chunk_ensures hopens hinner context (show place.left ≤ bound by omega)).attempt.bind
      fun found next hnext => ?_
    cases found with
    | none =>
      rw [hnext.2 rfl]
      exact .pure ⟨hplace, nofun⟩
    | some command =>
      obtain ⟨hless, hpiece⟩ := hnext.1 command rfl
      refine (ih (by omega) (by omega)).bind fun rest last hrest => .pure ⟨by omega, ?_⟩
      exact List.forall_mem_cons.2 ⟨hpiece, hrest.2⟩

end Blocks

/-! ## 8. Whole sources -/

/-- A tree of a whole source is the source as a literal, or what its reader accepted. -/
theorem literal_or_accepted_of_whole {g : Grammar} {reader : Text → Reader Command} {source : Text}
    {command : Command} (h : whole g reader source = .ok command) :
    command = .literal source ∨
      ∃ c f, reader source (.start source) ⟨0, []⟩ = .accepted command c f := by
  unfold whole at h
  split at h
  · cases h
    exact .inl rfl
  · split at h
    · cases h
    · cases h
    · next found c f hrun =>
      -- nothing but comments is left behind what was accepted
      split at h
      · cases h
      · split at h
        · cases h
          exact .inr ⟨c, f, hrun⟩
        · cases h

end Template

end PromptTemplate
