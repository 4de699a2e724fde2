/-
`Blocks.lean` -- blocks whose options stand behind a marker or bounds.

Weights may be written before any of the options of a block. Behind a heading, a weight before
the first option is not where a probability has its number, and the heading together with the
weight is the text before the first colons of the block: a pattern, since it is no number. A
condition is tried before a variant, and it goes on with at most one more word, which it takes
for its last resort. So a block with a heading is a condition when its first option has a
weight and at most one option without a weight follows, and in every other case it is the
variant of its options (`Grammar.parse_headed`).
-/
import PromptTemplate.Proofs.Template.Headed.Headings

set_option autoImplicit false

namespace PromptTemplate

namespace Template

/-! ## 1. Blocks with a heading -/

/-- A block with a heading and one option at least. -/
structure Headed where
  heading : Heading
  first : WrittenOption
  others : List WrittenOption

namespace Headed

/-- All options of the block. -/
def options (block : Headed) : List WrittenOption := block.first :: block.others

/-- The block as it is written. -/
def print (block : Headed) : Text :=
  units "\x7b" ++ (block.heading.print ++
    (Text.join (units "|") (block.options.map WrittenOption.print) ++ units "\x7d"))

/-- Whether the first option has a weight, and nothing or one option without a weight follows. -/
def isTest (block : Headed) : Bool :=
  match block.first.weight, block.others with
  | some _, [] => true
  | some _, [second] => second.weight.isNone
  | _, _ => false

/-- The text before the first colons when the first option has a weight: the heading and the
weight. -/
def test (block : Headed) : Text :=
  block.heading.print ++ (block.first.weight.map Numeral.text).getD []

/-- The word that is left for when the test does not hold. -/
def otherwise (block : Headed) : Text := (block.others.head?.map (·.word.text)).getD []

end Headed

/-! ## 2. Variants -/

variable {s : Setting} {inner : Inner} {rest : Text} (block : Headed)

theorem Headed.print_append (rest : Text) :
    block.print ++ rest = units "\x7b" ++
      (block.heading.print ++ (block.first.print ++ closing block.others rest)) := by
  rw [Headed.print, Headed.options, List.map_cons]
  simp only [List.append_assoc]
  refine congrArg (units "\x7b" ++ ·) (congrArg (block.heading.print ++ ·) ?_)
  exact join_append _ _ _

/-- Before an option there are no bounds: behind a weight stand colons. -/
theorem refuses_bounds_written (s : Setting) (option : WrittenOption) (tail : Text) :
    (Template.bounds s).Refuses (option.print ++ tail) := by
  obtain ⟨weight, word⟩ := option
  cases weight with
  | none =>
    have hnone : ∀ u ∈ ([] : Text), u.isDigit = true := nofun
    have hhead : ∀ u ∈ (word.text ++ tail).head?, u.isDigit = false ∧ u ≠ 45 := fun u hu =>
      ⟨(word.head tail u hu).isDigit, (word.head tail u hu).ne (by decide)⟩
    have hprint : WrittenOption.print ⟨none, word⟩ ++ tail = [] ++ (word.text ++ tail) := rfl
    rw [hprint]
    exact refuses_bounds s hnone hhead fun hne => absurd rfl hne
  | some weight =>
    simp only [WrittenOption.print, WrittenOption.printWeight, List.append_assoc]
    exact refuses_bounds s weight.digits (fun u hu => by cases hu; decide) fun _ => rfl

/-- What the bounds before the options declare, if there are any. -/
theorem reads_declaration (hs : s.grammar = .standard) (rest : Text) :
    (Reader.attempt (Template.bounds s)).Reads
      ((block.heading.bounds.map printSpan).getD [] ++
        (block.first.print ++ closing block.others rest))
      (block.first.print ++ closing block.others rest)
      (· = block.heading.bounds.map fun bounds =>
        (bounds.1.least, bounds.1.most, bounds.2.map Word.text)) := by
  cases block.heading.bounds with
  | none => exact (refuses_bounds_written s block.first _).attempt
  | some bounds =>
    have hread := @reads_bounds_span s rest hs bounds _ (join_options_units block.options)
    rw [Headed.options, List.map_cons, join_append] at hread
    exact hread.attempt.mono fun _ ⟨_, hsome, hvalue⟩ => hsome.trans (congrArg some hvalue)

theorem Span.ordered (span : Span) {least : Nat} (h : span.most = some least) :
    span.least.getD 1 ≤ least := by
  cases span with
  | exactly count =>
    cases h
    exact Nat.le_refl _
  | between low high ordered =>
    cases h
    exact ordered
  | atLeast => cases h
  | atMost high positive =>
    cases h
    exact positive

theorem checkOptions_declared (options : List WrittenOption) :
    Command.checkOptions (options.map WrittenOption.declared) =
      .ok (options.map WrittenOption.weighted) := by
  -- a weight that is not written counts one; a written one is a numeral, so it is never negative
  have hweight : ∀ option : WrittenOption,
      Command.checkWeight (option.declared.1.getD 1) = .ok option.weighted.weight := by
    have hnatural : ∀ n : Nat, Command.checkWeight (Number.ofNat n) = .ok (n : Rat) := fun n => by
      rw [Number.ofNat, Command.checkWeight, if_neg (Rat.not_lt.2 Rat.natCast_nonneg)]
    rintro ⟨weight, word⟩
    cases weight with
    | none => exact hnatural 1
    | some weight => exact hnatural weight.value
  induction options with
  | nil => rfl
  | cons option options ih =>
    rw [List.map_cons, List.map_cons]
    unfold Command.checkOptions
    simp only [WrittenOption.declared] at hweight ih ⊢
    rw [hweight option, ih]
    rfl

/-- The options and what the heading declares make a variant. -/
theorem makeVariant_headed (label : Label) : ∃ least most,
    Command.makeVariant label (block.options.map WrittenOption.declared) block.heading.settings =
      .ok (.variant label (block.options.map WrittenOption.weighted) least most
        (block.heading.settings.separator.getD Command.defaultSeparator)
        block.heading.sampling) := by
  -- the bounds are written in order, so the check of an empty range does not refuse them
  have hordered : ∀ most, block.heading.bounds.bind (·.1.most) = some most →
      (block.heading.bounds.bind (·.1.least)).getD 1 ≤ most := by
    cases block.heading.bounds with
    | none => exact nofun
    | some bounds => exact fun most hmost => bounds.1.ordered hmost
  simp only [Command.makeVariant, checkOptions_declared, Heading.settings,
    Command.checkBound_ofNat, bind, Except.bind]
  generalize block.heading.bounds.bind (·.1.least) = least at hordered ⊢
  generalize block.heading.bounds.bind (·.1.most) = most at hordered ⊢
  rw [if_neg]
  · exact ⟨_, _, rfl⟩
  · rintro ⟨hsome, hless⟩
    obtain ⟨upper, rfl⟩ := Option.isSome_iff_exists.1 hsome
    exact absurd hless (Nat.not_lt.2 (hordered upper rfl))

/-- Neither bounds nor an option begin with a marker. -/
theorem head_declaration (tail : Text) :
    ∀ u ∈ ((block.heading.bounds.map printSpan).getD [] ++ (block.first.print ++ tail)).head?,
      u ≠ 126 ∧ u ≠ 33 ∧ u ≠ 64 := by
  have hdigit : ∀ u : CodeUnit, u.isDigit = true → u ≠ 126 ∧ u ≠ 33 ∧ u ≠ 64 := fun u hu =>
    ⟨CodeUnit.ne_of_isDigit hu rfl, CodeUnit.ne_of_isDigit hu rfl, CodeUnit.ne_of_isDigit hu rfl⟩
  intro u hu
  -- first a digit of the bounds or of a weight, or the mark that opens a span, or the first word
  cases hbounds : block.heading.bounds with
  | none =>
    rw [hbounds] at hu
    rcases head_option block.first tail u hu with hu | hu
    · exact hdigit u hu
    · exact ⟨hu.ne (by decide), hu.ne (by decide), hu.ne (by decide)⟩
  | some bounds =>
    rw [hbounds] at hu
    rcases head_printSpan bounds _ u hu with hu | rfl
    · exact hdigit u hu
    · decide

theorem reads_variantBlock_headed (hs : s.grammar = .standard) (hinner : inner.ReadsTexts)
    (rest : Text) :
    (variantBlock s inner).Reads (block.print ++ rest) rest fun command => ∃ label,
      Command.makeVariant label (block.options.map WrittenOption.declared) block.heading.settings =
        .ok command := by
  have hends := ends_closing block.others rest
  rw [Headed.print_append, variantBlock, hs]
  refine .bind_here fun start hstart => (Reader.reads_accept _ _).bind fun _ _ => ?_
  refine (Reader.reads_skipBlanks fun u hu => (block.heading.head _ u hu).1).bind fun _ _ => ?_
  rw [Heading.print, List.append_assoc]
  refine (reads_sampler _ (head_declaration block _)).bind fun method hmethod => ?_
  refine (reads_declaration block hs rest).bind fun declared hdeclared => ?_
  refine (reads_written s hinner block.first hends).bind fun read hread => ?_
  have hrounds : block.others.length < start.rest.length + 1 := by
    have hcount := length_closing block.others rest
    simp only [hstart, List.length_append]
    omega
  refine (reads_moreWritten s hinner block.others hrounds).bind fun others hothers => ?_
  refine (Ends.close rest).reads_skipBlanks.bind fun _ _ => ?_
  refine (Reader.reads_accept _ _).attempt.bind fun found hfound => ?_
  obtain ⟨_, rfl, -⟩ := hfound
  -- what was read is what the block declares, and that can be made
  have hsettings : block.heading.settings =
      ⟨(declared.getD (none, none, none)).1.map Number.ofNat,
        (declared.getD (none, none, none)).2.1.map Number.ofNat,
        (declared.getD (none, none, none)).2.2, method⟩ := by
    rw [hdeclared, hmethod, Heading.settings]
    cases block.heading.bounds with
    | _ => rfl
  obtain ⟨least, most, hmade⟩ := makeVariant_headed block (s.label start)
  rw [hsettings] at hmade
  have hoptions : block.options.map WrittenOption.declared = read :: others := by
    rw [hread, hothers, Headed.options, List.map_cons]
  rw [hoptions] at hmade ⊢
  simp only [hmade]
  exact .pure ⟨s.label start, by rw [hsettings]; exact hmade⟩

/-! ## 3. Blocks that come before variants -/

theorem refuses_probabilityBlock_headed (hs : s.grammar = .standard) (rest : Text) :
    (probabilityBlock s inner).Refuses (block.print ++ rest) := by
  rw [Headed.print_append]
  generalize block.first.print ++ closing block.others rest = tail
  obtain ⟨sampling, bounds, hsome⟩ := block.heading
  cases sampling with
  | some method =>
    refine refuses_probabilityBlock hs fun u hu => ?_
    cases hu
    cases method <;> decide
  | none =>
    cases bounds with
    | none => simp at hsome
    | some bounds =>
      have hprint : Heading.print ⟨none, some bounds, hsome⟩ ++ tail =
          printSpan bounds ++ tail := rfl
      rw [hprint, printSpan_append]
      obtain ⟨span, separator⟩ := bounds
      have hhead := span.head_back (printSeparator separator ++ tail)
      have hcolons : (span.back ++ (units "$$" ++ (printSeparator separator ++ tail))).startsWith
          (units "::") = false := startsWith_eq_false fun u hu => by
        rcases hhead u hu with rfl | rfl <;> decide
      -- a count or a lower bound reads as a chance, but no colons stand behind it
      have hfront : ∀ numeral : Numeral, span.front = numeral.text →
          (probabilityBlock s inner).Refuses (units "\x7b" ++ (span.front ++
            (span.back ++ (units "$$" ++ (printSeparator separator ++ tail))))) := by
        intro numeral hnumeral
        rw [hnumeral]
        refine refuses_probabilityBlock_number hs numeral.nonempty numeral.digits (fun u hu => ?_)
          (.inl hcolons)
        rcases hhead u hu with rfl | rfl <;> decide
      cases span with
      | exactly count => exact hfront count rfl
      | between least => exact hfront least rfl
      | atLeast least => exact hfront least rfl
      | atMost => exact refuses_probabilityBlock hs fun u hu => by cases hu; decide

/-- A block whose first option has a weight begins with its test and colons. -/
theorem Headed.print_test {weight : Numeral} (h : block.first.weight = some weight) (rest : Text) :
    block.print ++ rest = units "\x7b" ++
      (block.test ++ (units "::" ++ (block.first.word.text ++ closing block.others rest))) := by
  rw [Headed.print_append, Headed.test, WrittenOption.print, WrittenOption.printWeight, h]
  simp only [List.append_assoc, Option.map_some, Option.getD_some]

theorem Headed.test_units : ∀ u ∈ block.test, InHeading u := by
  refine List.forall_mem_append.2 ⟨inHeading_print block.heading, ?_⟩
  cases block.first.weight with
  | none => exact nofun
  | some weight => exact fun u hu => .inl (weight.digits u hu)

/-- The test compiles, since no unit of a heading is an operator. -/
theorem Headed.compiles_test : ∃ pattern, Pattern.read false block.test = .ok pattern :=
  ⟨_, Pattern.read_spelled (fun u hu => (block.test_units u hu).spells) false⟩

/-- The first option with its weight reads as a branch. -/
theorem reads_branch_test (hs : s.grammar = .standard) (hinner : inner.ReadsTexts)
    (hrest : Halts rest) :
    (branch s inner).Reads (block.test ++ (units "::" ++ (block.first.word.text ++ rest))) rest
      (· = ⟨none, block.test, .literal block.first.word.text⟩) := by
  have hne : block.test ≠ [] := List.append_ne_nil_of_left_ne_nil block.heading.print_ne_nil _
  have hunits : ∀ u ∈ block.test, u.isBlank = false ∧ u ∉ [58, 123, 124, 125] := fun u hu =>
    ⟨(block.test_units u hu).isBlank, (block.test_units u hu).notMem⟩
  obtain ⟨hnumber, hkey⟩ := block.heading.tests ((block.first.weight.map Numeral.text).getD [])
  have hsplit : splitKey block.test = (none, block.test) := hkey
  rw [branch]
  refine (reads_pattern hs hne hunits hnumber).bind fun raw hraw => ?_
  rw [hraw, hsplit]
  exact (reads_operand_text hinner block.first.word.solid hrest).bind fun value hvalue =>
    .pure (by rw [hvalue])

/-- What is no branch behind a bar is the last resort. -/
theorem reads_moreBranches_last (hinner : inner.ReadsTexts) {text : Text} (hsolid : Solid text)
    (hbranch : (branch s inner).Refuses (text ++ rest)) (hrest : Halts rest) (rounds : Nat) :
    (moreBranches s inner (rounds + 1)).Reads (units "|" ++ (text ++ rest)) rest
      (· = ([], .literal text)) := by
  have hnone : (Reader.skipBlanks >>= fun _ => branch s inner).Refuses (text ++ rest) :=
    .bind_reads (hsolid.reads_skipBlanks rest) fun _ _ => hbranch
  rw [moreBranches]
  refine (Reader.reads_tryAccept _ _).bind fun found hfound => .ite hfound ?_
  refine hnone.attempt.bind fun next hnext => ?_
  rw [hnext]
  exact (reads_operand_text hinner hsolid hrest).bind fun value hvalue => .pure (by rw [hvalue])

/-- A word between bars is no branch. -/
theorem refuses_branch_word (hs : s.grammar = .standard) (word : Word)
    (options : List WrittenOption) (rest : Text) :
    (branch s inner).Refuses (word.text ++ closing options rest) := by
  refine refuses_branch hs (HidesPatterns.of_forall (fun u hu => ?_) _ (patternText?_behind _ rest))
  exact (word.letters u hu).ne (by decide)

/-- A weight of a later option is no pattern. -/
theorem refuses_branch_numeral (hs : s.grammar = .standard) (numeral : Numeral) (rest : Text) :
    (branch s inner).Refuses (numeral.text ++ (units "::" ++ rest)) := by
  rw [branch]
  exact .bind (refuses_pattern_number hs numeral.nonempty numeral.digits)

/-- Behind the first branch of a test stands its last resort, if there is one. -/
theorem reads_moreBranches_test (hs : s.grammar = .standard) (hinner : inner.ReadsTexts)
    (h : block.isTest = true) (rest : Text) (rounds : Nat) :
    (moreBranches s inner (rounds + 1)).Reads
      (closing block.others rest) (units "\x7d" ++ rest) (· = ([], .literal block.otherwise)) := by
  obtain ⟨heading, first, others⟩ := block
  rcases others with _ | ⟨⟨weight, word⟩, _ | ⟨third, others⟩⟩
  · rw [moreBranches]
    refine (Reader.reads_tryAccept_false rfl).bind fun found hfound => ?_
    exact .ite_neg (by simp [hfound]) (.pure rfl)
  · cases weight with
    | none =>
      exact reads_moreBranches_last hinner word.solid (refuses_branch_word hs word [] rest)
        (Ends.close rest).halts rounds
    | some weight => cases hweight : first.weight <;> simp [Headed.isTest, hweight] at h
  · cases hweight : first.weight <;> simp [Headed.isTest, hweight] at h

/-- With two words behind the first option, or a second weight, the block does not end where
its condition would. -/
theorem reads_moreBranches_more (hs : s.grammar = .standard) (hinner : inner.ReadsTexts)
    {weight : Numeral} (hweight : block.first.weight = some weight) (h : block.isTest = false)
    (rest : Text) (rounds : Nat) : ∃ left, Halts left ∧ left.startsWith (units "\x7d") = false ∧
      (moreBranches s inner (rounds + 1)).Reads (closing block.others rest) left fun _ => True := by
  obtain ⟨heading, first, others⟩ := block
  rcases others with _ | ⟨⟨second, word⟩, others⟩
  · simp [Headed.isTest, show first.weight = some weight from hweight] at h
  · have hends := ends_closing others rest
    cases second with
    | some number =>
      -- the number is taken for the last resort, and its colons are left
      have hprint : closing (⟨some number, word⟩ :: others) rest =
          units "|" ++ (number.text ++ (units "::" ++ (word.text ++ closing others rest))) := by
        rw [closing_cons, WrittenOption.print, WrittenOption.printWeight]
        simp only [List.append_assoc]
      refine ⟨_, halts_colons (word.text ++ closing others rest), rfl, ?_⟩
      rw [hprint]
      exact (reads_moreBranches_last hinner number.solid (refuses_branch_numeral hs number _)
        (halts_colons _) rounds).mono fun _ _ => trivial
    | none =>
      -- the word is taken for the last resort, and the bar before the third option is left
      refine ⟨_, hends.halts, ?_, (reads_moreBranches_last hinner word.solid
        (refuses_branch_word hs word _ rest) hends.halts rounds).mono fun _ _ => trivial⟩
      rcases others with _ | ⟨third, others⟩
      · simp [Headed.isTest, show first.weight = some weight from hweight] at h
      · rfl

/-- What the block is when its first option with the heading is a test. -/
def Headed.IsCondition (command : Command) : Prop := ∃ pattern,
  Pattern.read false block.test = .ok pattern ∧
    command = .condition [⟨⟨none, block.test, pattern⟩, .literal block.first.word.text⟩]
      (.literal block.otherwise)

theorem Headed.exists_weight (h : block.isTest = true) :
    ∃ weight, block.first.weight = some weight := by
  cases hweight : block.first.weight with
  | none => simp [Headed.isTest, hweight] at h
  | some weight => exact ⟨weight, rfl⟩

theorem reads_conditionBlock_headed (hs : s.grammar = .standard) (hinner : inner.ReadsTexts)
    (h : block.isTest = true) (rest : Text) :
    (conditionBlock s inner).Reads (block.print ++ rest) rest block.IsCondition := by
  obtain ⟨weight, hweight⟩ := block.exists_weight h
  obtain ⟨pattern, hpattern⟩ := block.compiles_test
  have hends := ends_closing block.others rest
  -- only the expression could be refused, and it compiles
  have hmade : Command.makeCondition [⟨none, block.test, .literal block.first.word.text⟩]
      (.literal block.otherwise) =
        .ok (.condition [⟨⟨none, block.test, pattern⟩, .literal block.first.word.text⟩]
          (.literal block.otherwise)) := by
    rw [Command.makeCondition, if_neg (by simp)]
    simp only [Command.compileBranches, hpattern]
    rfl
  rw [block.print_test hweight, conditionBlock, hs]
  refine (Reader.reads_accept _ _).bind fun _ _ => .bind_here fun start _ => ?_
  refine (reads_branch_test block hs hinner hends.halts).bind fun first hfirst => ?_
  refine (reads_moreBranches_test block hs hinner h rest start.rest.length).bind
    fun more hmore => ?_
  refine (Ends.close rest).reads_skipBlanks.bind fun _ _ =>
    (Reader.reads_accept _ _).bind fun _ _ => ?_
  rw [hfirst, hmore]
  simp only [hmade]
  exact .pure ⟨pattern, hpattern, rfl⟩

theorem refuses_conditionBlock_headed (hs : s.grammar = .standard) (hinner : inner.ReadsTexts)
    (h : block.isTest = false) (rest : Text) :
    (conditionBlock s inner).Refuses (block.print ++ rest) := by
  cases hweight : block.first.weight with
  | none =>
    -- no colons stand before the first bar or the closing brace
    have hprint : block.first.print = block.first.word.text := by
      rw [WrittenOption.print, WrittenOption.printWeight, hweight, List.nil_append]
    rw [Headed.print_append, hprint]
    refine refuses_conditionBlock hs (HidesPatterns.of_forall (fun u hu => ?_) _
      (HidesPatterns.of_forall (fun u hu => ?_) _ (patternText?_behind _ rest)))
    · exact (inHeading_print block.heading u hu).ne (by decide)
    · exact (block.first.word.letters u hu).ne (by decide)
  | some weight =>
    have hends := ends_closing block.others rest
    rw [block.print_test hweight, conditionBlock, hs]
    refine .bind_reads (Reader.reads_accept _ _) fun _ _ => .bind_here fun start _ => ?_
    refine .bind_reads (reads_branch_test block hs hinner hends.halts) fun _ _ => ?_
    obtain ⟨left, hleft, hclose, hmore⟩ :=
      reads_moreBranches_more block hs hinner hweight h rest start.rest.length
    refine .bind_reads hmore fun _ _ => ?_
    exact .bind_reads (Reader.reads_skipBlanks hleft.nonblank) fun _ _ =>
      .bind (Reader.refuses_accept hclose)

/-! ## 4. Templates -/

/-- What the block is when it is a variant: its options, each with its weight, and the bounds and
the separator that are made from what the heading declares. -/
def Headed.IsVariant (command : Command) : Prop := ∃ label least most,
  command = .variant label (block.options.map WrittenOption.weighted) least most
    (block.heading.settings.separator.getD Command.defaultSeparator) block.heading.sampling ∧
  Command.makeVariant label (block.options.map WrittenOption.declared) block.heading.settings =
    .ok command

/-- What a block with a heading stands for. -/
def Headed.StandsFor (command : Command) : Prop :=
  if block.isTest then block.IsCondition command else block.IsVariant command

theorem reads_chunk_headed (hs : s.grammar = .standard) (hinner : inner.ReadsTexts)
    (context : Context) (rest : Text) :
    (chunk s inner context).Reads (block.print ++ rest) rest block.StandsFor := by
  have hcomment : (commentBlock s).Refuses (block.print ++ rest) := by
    rw [Headed.print_append]
    -- the productions before it refuse the block, each for the first thing that it misses
    exact refuses_commentBlock hs (block.heading.head _)
  refine .firstOf_tail hcomment (.firstOf_tail (refuses_probabilityBlock_headed block hs rest) ?_)
  cases htest : block.isTest with
  | true =>
    refine .firstOf_head ((reads_conditionBlock_headed block hs hinner htest rest).mono
      fun command hcommand => ?_)
    rw [Headed.StandsFor, if_pos htest]
    exact hcommand
  | false =>
    have hread := reads_variantBlock_headed block hs hinner rest
    have hcondition := refuses_conditionBlock_headed block hs hinner htest rest
    rw [Headed.print_append] at hread hcondition ⊢
    refine .firstOf_tail hcondition (reads_firstOf_variables hs rfl
      (.firstOf_tail (refuses_wrapBlock inner hs rfl) (.firstOf_head ?_)))
    refine hread.mono fun command ⟨label, hmade⟩ => ?_
    obtain ⟨least, most, hvariant⟩ := makeVariant_headed block label
    rw [hvariant] at hmade
    cases hmade
    rw [Headed.StandsFor, if_neg (by simp [htest])]
    exact ⟨label, least, most, rfl, hvariant⟩

/-- The brace is no letter and no number. -/
theorem Headed.isAlphanumeric_print : block.print.isAlphanumeric = false := by
  have hbrace : (123 : CodeUnit) ∈ block.print := List.mem_cons_self
  have hpoint : (123 : Nat) ∈ block.print.points := Text.mem_points rfl rfl hbrace
  rw [Text.isAlphanumeric, Bool.and_eq_false_iff]
  exact .inr (List.all_eq_false.2 ⟨123, hpoint, by decide +kernel⟩)

end Template

/-- **A block with a heading is the variant of its options, or a condition.** The template of a
heading and words with or without weights is read, from whichever origin. It is a condition
where the first word has a weight and at most one word without a weight follows: then the
heading and the weight are the pattern, the first word is the value, and the second the last
resort. Wherever else weights are written, it is the variant of exactly these words, with the
weights that are written and one elsewhere, and with what the heading declares. -/
theorem Grammar.parse_headed (block : Template.Headed) (origin : Origin) :
    ∃ tree, standard.parse origin block.print = .ok tree ∧ block.StandsFor tree := by
  have hne : block.print ≠ [] := List.cons_ne_nil _ _
  obtain ⟨depth, hdepth⟩ := Nat.exists_eq_succ_of_ne_zero (mt List.length_eq_zero_iff.1 hne)
  have hread : (Template.chunksWith .standard origin (block.print.length + 1) [] .prompt
      block.print).Reads (block.print ++ []) [] block.StandsFor := by
    rw [hdepth, Template.chunksWith]
    refine .bind_here fun c hc => ?_
    -- two rounds are enough: one reads the block and one finds nothing behind it
    obtain ⟨rounds, hrounds⟩ : ∃ rounds, c.rest.length + 1 = rounds + 2 :=
      ⟨depth, by rw [hc, List.append_nil, hdepth]⟩
    have hbegin : Template.Uncommented (block.print ++ []) := fun u hu => by cases hu; decide
    rw [hrounds]
    refine (Template.reads_chunks_single hbegin (Template.reads_chunk_headed block rfl
      (Template.readsTexts_chunksWith origin depth [] block.print _) .prompt [])
      Template.Ends.source.uncommented (Template.refuses_chunk _ rfl .source) rounds).bind
        fun read hread => ?_
    obtain ⟨command, hcommand, rfl⟩ := hread
    rw [Command.ofList_singleton]
    exact .pure hcommand
  rw [List.append_nil] at hread
  obtain ⟨tree, after, f, hrun, hafter, htree⟩ := hread (.start block.print) ⟨0, []⟩ rfl
  have huncommented : Template.Uncommented after.rest := by
    rw [hafter]
    exact Template.Ends.source.uncommented
  refine ⟨tree, ?_, htree⟩
  rw [Grammar.parse, Template.whole, block.isAlphanumeric_print, Bool.false_and,
    if_neg Bool.false_ne_true]
  simp only [hrun, Template.afterComments?_eq_self huncommented, hafter, List.isEmpty_nil, if_true]

/-- A marker, a word with a weight and a word without one: `{~2::a|b}`. -/
def Template.Headed.sample : Template.Headed where
  heading := ⟨some .random, none, .inl rfl⟩
  first := ⟨some ⟨units "2", by decide, Text.forall_of_all (by decide), by decide⟩,
    ⟨units "a", by decide, Text.forall_of_all (by decide)⟩⟩
  others := [⟨none, ⟨units "b", by decide, Text.forall_of_all (by decide)⟩⟩]

example : Template.Headed.sample.print = units "\x7b~2::a|b\x7d" := by decide

/-- A weight before the first of two options behind a marker turns the block into a condition. -/
theorem Grammar.parse_headed_not_variant : ¬∀ (block : Template.Headed) (origin : Origin),
    ∃ tree, standard.parse origin block.print = .ok tree ∧ block.IsVariant tree := by
  intro h
  obtain ⟨tree, hparse, label, least, most, rfl, -⟩ := h .sample (.built 0)
  have hcondition : (standard.parse (.built 0) Template.Headed.sample.print).toOption.any
      (fun tree => match tree with
        | .condition _ _ => true
        | _ => false) = true := by
    decide +kernel
  rw [hparse] at hcondition
  cases hcondition

end PromptTemplate
