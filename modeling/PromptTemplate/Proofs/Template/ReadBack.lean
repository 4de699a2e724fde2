/-
`ReadBack.lean` -- what is printed is read back.

A printed node is read by the production of its kind, and refused by those that are tried
before it; a printed tree is read node by node, because each ends where the next begins.
The parts of a node print shorter than the node does, so the recursion is on the depth
that the reader counts.
-/
import PromptTemplate.Proofs.Template.Printed.Variants

set_option autoImplicit false

namespace PromptTemplate

namespace Template

variable {s : Setting} {inner : Inner} {context : Context} {rest : Text}

/-! ## 1. Names -/

/-- Letters are a name of a variable. -/
theorem isVariableName_of_isLetters {name : Text} (h : name.IsLetters) :
    isVariableName name = true := by
  obtain ⟨hne, hletters⟩ := h
  obtain ⟨u, name, rfl⟩ := List.exists_cons_of_ne_nil hne
  rw [isVariableName, (continuesVariable_of_isLetter (hletters u List.mem_cons_self)).1,
    Bool.true_and]
  refine List.all_eq_true.2 fun v hv => ?_
  exact (continuesVariable_of_isLetter (hletters v (List.mem_cons_of_mem _ hv))).2

/-- A name of letters reaches up to what is no part of a name. -/
theorem reads_variableName {name : Text} (h : name.IsLetters)
    (hrest : ∀ u ∈ rest.head?, continuesVariable u = false) :
    variableName.Reads (name ++ rest) rest (· = name) := by
  obtain ⟨hne, hletters⟩ := h
  rw [variableName]
  refine .bind_here fun c hc => ?_
  have hbegins : c.rest.head?.any beginsVariable = true := by
    obtain ⟨u, name, rfl⟩ := List.exists_cons_of_ne_nil hne
    rw [hc]
    exact (continuesVariable_of_isLetter (hletters u List.mem_cons_self)).1
  refine .ite hbegins (Reader.reads_takeWhile (fun u hu => ?_) hrest)
  exact (continuesVariable_of_isLetter (hletters u hu)).2

/-- A name of letters is skipped to at once. -/
theorem reads_skipBlanks_letters {name : Text} (h : name.IsLetters) (rest : Text) :
    Reader.skipBlanks.Reads (name ++ rest) (name ++ rest) fun _ => True :=
  Reader.reads_skipBlanks fun u hu => (CodeUnit.isBlank_of_isLetter (h.head rest u hu)).1

/-! ## 2. Variables and wraps -/

/-- An assignment as it is printed, before what follows. -/
theorem print_assignment (name : Text) (value : Command) (overwrite immediate : Bool) :
    (Command.assignment name value overwrite immediate).print ++ rest =
      units "$\x7b" ++ (name ++ (units (if overwrite then "=" else "?=") ++
        (units (if immediate then "!" else "") ++
        (value.print ++ (units "\x7d" ++ rest))))) := by
  rw [Command.print]
  simp only [List.append_assoc]

/-- Whether a bound variable is kept: a question mark before the sign. -/
theorem reads_preserve (overwrite : Bool) :
    (Reader.tryAccept (units "?")).Reads (units (if overwrite then "=" else "?=") ++ rest)
      (units "=" ++ rest) (· = !overwrite) := by
  cases overwrite with
  | true => exact Reader.reads_tryAccept_false rfl
  | false => exact Reader.reads_tryAccept (units "?") (units "=" ++ rest)

/-- Whether a value is evaluated at once: an exclamation mark behind the sign. -/
theorem reads_immediate (immediate : Bool) (hrest : ∀ u ∈ rest.head?, BeginsOperand u) :
    (Reader.tryAccept (units "!")).Reads (units (if immediate then "!" else "") ++ rest) rest
      (· = immediate) := by
  cases immediate with
  | true => exact Reader.reads_tryAccept (units "!") rest
  | false =>
    exact Reader.reads_tryAccept_false
      (startsWith_eq_false fun u hu => (hrest u hu).ne (by decide) (by decide))

/-- An assignment is read back from what is printed. -/
theorem reads_assignment (hs : s.grammar = .standard) {name : Text} (hname : name.IsLetters)
    {value : Command} (h : value.PrintableOperand) (hreads : inner.ReadsBack value)
    (overwrite immediate : Bool) (rest : Text) :
    (assignment s inner).Reads
      ((Command.assignment name value overwrite immediate).print ++ rest) rest
      (Command.assignment name value overwrite immediate).Alike := by
  have hclose : Ends .block (units "\x7d" ++ rest) := .close rest
  -- the name and the blanks behind it end at the sign, whichever it is
  have hsign : ∀ tail : Text, ∀ u ∈ (units (if overwrite then "=" else "?=") ++ tail).head?,
      continuesVariable u = false ∧ u.isBlank = false := by
    intro tail u hu
    cases overwrite with
    | _ => cases hu; decide
  rw [print_assignment, assignment, hs]
  refine (Reader.reads_accept _ _).bind fun _ _ => ?_
  refine (reads_skipBlanks_letters hname _).bind fun _ _ => ?_
  refine (reads_variableName hname fun u hu => (hsign _ u hu).1).bind fun found hfound => ?_
  refine (Reader.reads_skipBlanks fun u hu => (hsign _ u hu).2).bind fun _ _ => ?_
  refine (reads_preserve overwrite).bind fun preserve hpreserve =>
    (Reader.reads_accept _ _).bind fun _ _ => ?_
  refine (reads_immediate immediate (beginsOperand_print h hclose)).bind fun now hnow => ?_
  refine (reads_operand h hreads hclose).bind fun read hread => ?_
  refine hclose.reads_skipBlanks.bind fun _ _ => (Reader.reads_accept _ _).bind fun _ _ => ?_
  rw [hfound, hpreserve, hnow, Bool.not_not, Command.makeAssignment,
    if_pos (isVariableName_of_isLetters hname)]
  exact .pure (congrArg (Command.assignment name · overwrite immediate) hread)

/-- The default of a variable as it is printed. -/
def printFallback (fallback : Option Command) : Text :=
  match fallback with
  | some value => units ":" ++ value.print
  | none => []

/-- A reading as it is printed, before what follows. -/
theorem print_access (name : Text) (fallback : Option Command) :
    (Command.access name fallback).print ++ rest =
      units "$\x7b" ++ (name ++ (printFallback fallback ++ (units "\x7d" ++ rest))) := by
  cases fallback with
  | _ =>
    rw [Command.print]
    simp only [List.append_assoc, printFallback]

/-- What stands behind the name of a variable that is read: no part of the name, and no
sign of a binding. -/
theorem head_fallback (fallback : Option Command) (rest : Text) :
    ∀ u ∈ (printFallback fallback ++ (units "\x7d" ++ rest)).head?,
      (continuesVariable u = false ∧ u.isBlank = false) ∧ u ≠ 63 ∧ u ≠ 61 := by
  intro u hu
  cases fallback with
  | _ => cases hu; decide

/-- A reading is no assignment: behind its name there is no operator. -/
theorem refuses_assignment (inner : Inner) (hs : s.grammar = .standard) {name : Text}
    (hname : name.IsLetters) (fallback : Option Command) (rest : Text) :
    (assignment s inner).Refuses ((Command.access name fallback).print ++ rest) := by
  have hhead := head_fallback fallback rest
  rw [print_access, assignment, hs]
  refine .bind_reads (Reader.reads_accept _ _) fun _ _ => ?_
  refine .bind_reads (reads_skipBlanks_letters hname _) fun _ _ => ?_
  refine .bind_reads (reads_variableName hname fun u hu => (hhead u hu).1.1) fun _ _ => ?_
  refine .bind_reads (Reader.reads_skipBlanks fun u hu => (hhead u hu).1.2) fun _ _ => ?_
  -- here a binding would have its sign, with a question mark before it or without
  refine .bind_reads (Reader.reads_tryAccept_false (startsWith_eq_false fun u hu =>
    (hhead u hu).2.1)) fun _ _ => ?_
  exact .bind (Reader.refuses_accept (startsWith_eq_false fun u hu => (hhead u hu).2.2))

/-- A reading is read back from what is printed. -/
theorem reads_access (hs : s.grammar = .standard) {name : Text} (hname : name.IsLetters)
    {fallback : Option Command}
    (h : ∀ value ∈ fallback, value.PrintableOperand ∧ inner.ReadsBack value) (rest : Text) :
    (access s inner false).Reads ((Command.access name fallback).print ++ rest) rest
      (Command.access name fallback).Alike := by
  have hclose : Ends .block (units "\x7d" ++ rest) := .close rest
  -- what stands behind the name tells whether there is a fallback
  have hhead := head_fallback fallback rest
  have hfallback : (Template.fallback inner).Reads
      (printFallback fallback ++ (units "\x7d" ++ rest)) (units "\x7d" ++ rest) fun read =>
        (Command.access name fallback).Alike (.access name read) := by
    rw [Template.fallback]
    cases fallback with
    | none =>
      refine (Reader.reads_tryAccept_false rfl).bind fun found hfound => ?_
      exact .ite_neg (by simp [hfound]) (.pure rfl)
    | some value =>
      obtain ⟨hvalue, hreads⟩ := h value rfl
      rw [printFallback, List.append_assoc]
      refine (Reader.reads_tryAccept _ _).bind fun found hfound => .ite hfound ?_
      exact (reads_operand hvalue hreads hclose).bind fun read hread =>
        .pure (congrArg (fun value => Command.access name (some value)) hread)
  rw [print_access, access, hs]
  refine (Reader.reads_accept _ _).bind fun _ _ => ?_
  refine (reads_skipBlanks_letters hname _).bind fun _ _ => ?_
  refine (reads_variableName hname fun u hu => (hhead u hu).1.1).bind fun found hfound => ?_
  refine (Reader.reads_skipBlanks fun u hu => (hhead u hu).1.2).bind fun _ _ => ?_
  refine hfallback.bind fun read hread => hclose.reads_skipBlanks.bind fun _ _ => ?_
  refine (Reader.reads_accept _ _).bind fun _ _ => ?_
  rw [hfound, Command.makeAccess, if_pos (isVariableName_of_isLetters hname)]
  exact .pure hread

/-- A wrapping is read back from what is printed. -/
theorem reads_wrapBlock (hs : s.grammar = .standard) {wrapper wrapped : Command}
    (h : wrapper.PrintableOperand) (hreads : inner.ReadsBack wrapper)
    (h' : wrapped.PrintableOperand) (hreads' : inner.ReadsBack wrapped) (rest : Text) :
    (wrapBlock s inner).Reads ((Command.wrap wrapper wrapped).print ++ rest) rest
      (Command.wrap wrapper wrapped).Alike := by
  have hdollars : Ends .block (units "$$" ++ (wrapped.print ++ (units "\x7d" ++ rest))) :=
    .dollars _
  have hclose : Ends .block (units "\x7d" ++ rest) := .close rest
  rw [Command.print, wrapBlock, hs]
  simp only [List.append_assoc]
  refine (Reader.reads_accept _ _).bind fun _ _ =>
    (reads_operand h hreads hdollars).bind fun outer houter => ?_
  refine hdollars.reads_skipBlanks.bind fun _ _ => (Reader.reads_accept _ _).bind fun _ _ => ?_
  refine (reads_operand h' hreads' hclose).bind fun within hwithin => ?_
  exact hclose.reads_skipBlanks.bind fun _ _ => (Reader.reads_accept _ _).bind fun _ _ =>
    .pure (congrArg₂ Command.wrap houter hwithin)

/-! ## 3. Wildcards -/

/-- The path of a printed wildcard is the letters up to its mark. -/
theorem reads_path (hs : s.grammar = .standard) {name : Text} (hname : name.IsLetters)
    (rounds : Nat) :
    (Reader.many (pathChunk s inner) (rounds + 2)).Reads (name ++ (units "__" ++ rest))
      (units "__" ++ rest) (· = [.literal name]) := by
  have hopens : Opens (units "__" ++ rest) := .wildcard rest
  have hhead := hname.head (units "__" ++ rest)
  have hfirst : (pathChunk s inner).Reads (name ++ (units "__" ++ rest)) (units "__" ++ rest)
      (· = .literal name) := by
    have hbrace : (name ++ (units "__" ++ rest)).startsWith [123] = false :=
      startsWith_of_isLetter hhead (by decide)
    have hvariable : (name ++ (units "__" ++ rest)).startsWith [36, 123] = false :=
      startsWith_of_isLetter hhead (by decide)
    refine .firstOf_tail ((refuses_variables inner hs hvariable).2 true) ?_
    refine .firstOf_tail (refuses_braces inner hs hbrace).2.2.2 (.firstOf_head ?_)
    exact reads_text hs hname.1 (plain_of_isLetters hname) (hopens.stopsText .path) (.inl rfl)
  -- the closing mark is no part of a path, so the second round ends it
  have hlast : (pathChunk s inner).Refuses (units "__" ++ rest) := by
    refine .firstOf ?_
    simp only [List.forall_mem_cons]
    exact ⟨(refuses_variables inner hs rfl).2 true, (refuses_braces inner hs rfl).2.2.2,
      refuses_text hs (hopens.stopsText .path), nofun⟩
  have hend : (Reader.many (pathChunk s inner) (rounds + 1)).Reads (units "__" ++ rest)
      (units "__" ++ rest) (· = []) := by
    rw [Reader.many]
    refine hlast.attempt.bind fun found hfound => ?_
    rw [hfound]
    exact .pure rfl
  rw [Reader.many]
  refine hfirst.attempt.bind fun found hfound => ?_
  obtain ⟨_, rfl, rfl⟩ := hfound
  exact hend.bind fun others hothers => .pure (by rw [hothers])

/-- At the end of a wildcard no pairs begin. -/
theorem refuses_bindings : bindings.Refuses (units "__" ++ rest) := by
  rw [bindings]
  refine .bind_reads (Reader.reads_skipBlanks fun u hu => by cases hu; rfl) fun _ _ => ?_
  exact .bind (Reader.refuses_accept rfl)

/-- A wildcard is read back from what is printed. -/
theorem reads_wildcard (inner : Inner) (hs : s.grammar = .standard) (label : Label) {name : Text}
    (hname : name.IsLetters) (sampling : Option Sampling) (rest : Text) :
    (wildcard s inner).Reads ((Command.wildcard label (.fixed name) [] sampling).print ++ rest) rest
      (Command.wildcard label (.fixed name) [] sampling).Alike := by
  have hprint : (Command.wildcard label (.fixed name) [] sampling).print ++ rest =
      units "__" ++ (Command.markerText sampling ++ (name ++ (units "__" ++ rest))) := by
    rw [Command.print]
    simp only [Command.printName, List.append_assoc, List.nil_append]
  have hmarker : ∀ u ∈ (name ++ (units "__" ++ rest)).head?, u ≠ 126 ∧ u ≠ 33 ∧ u ≠ 64 := by
    intro u hu
    have hu := hname.head _ u hu
    exact ⟨CodeUnit.ne_of_isLetter hu (by decide), CodeUnit.ne_of_isLetter hu (by decide),
      CodeUnit.ne_of_isLetter hu (by decide)⟩
  rw [hprint, wildcard, hs]
  refine .bind_here fun start hstart => (Reader.reads_accept _ _).bind fun _ _ => ?_
  refine (reads_sampler sampling hmarker).bind fun method hmethod => ?_
  -- one round for the name and one for the end are there, with the opening mark ahead
  obtain ⟨rounds, hrounds⟩ : ∃ rounds, start.rest.length + 1 = rounds + 2 := by
    rw [hstart]
    exact ⟨_, rfl⟩
  rw [hrounds]
  refine (reads_path hs hname rounds).bind fun path hpath => ?_
  rw [hpath]
  refine .ite_neg Bool.false_ne_true (.bind_here fun place _ => ?_)
  refine refuses_bindings.attempt.bind fun content hcontent =>
    (Reader.reads_accept _ _).bind fun _ _ => ?_
  obtain ⟨u, letters, rfl⟩ := List.exists_cons_of_ne_nil hname.1
  rw [hcontent, hmethod]
  exact .pure rfl

/-! ## 4. Chunks -/

/-- What is printed of a node that is no literal begins with an opener. -/
theorem opens_print {command : Command} (h : command.Printable) (hchild : command.IsChild)
    (hliteral : ¬command.IsLiteral) (rest : Text) : Opens (command.print ++ rest) := by
  -- every printable node but a literal begins with a mark; a sequence is no child
  cases h with
  | literal => exact absurd trivial hliteral
  | sequence => exact hchild.elim
  | variant =>
    rw [Command.print]
    exact .brace _
  | wildcard =>
    rw [Command.print]
    exact .wildcard _
  | wrap =>
    rw [Command.print]
    exact .wrap _
  | condition =>
    rw [Command.print]
    exact .brace _
  | @access name fallback =>
    rw [print_access]
    exact .variable _
  | assignment =>
    rw [Command.print]
    exact .variable _

section Dispatch

variable {ahead : Text} {good : Command → Prop}

/-- Where no brace stands the productions of braces are passed over. -/
theorem reads_chunk_braces (hs : s.grammar = .standard) (h : ahead.startsWith [123] = false)
    (hread : (Reader.firstOf [assignment s inner, access s inner false, wrapBlock s inner,
      variantBlock s inner, wildcard s inner, text s context]).Reads ahead rest good) :
    (chunk s inner context).Reads ahead rest good := by
  obtain ⟨hcomment, hprobability, hcondition, -⟩ := refuses_braces inner hs h
  exact .firstOf_tail hcomment (.firstOf_tail hprobability (.firstOf_tail hcondition hread))

/-- Where no variable stands its two productions are passed over. -/
theorem reads_firstOf_variables (hs : s.grammar = .standard)
    (h : ahead.startsWith [36, 123] = false) {readers : List (Reader Command)}
    (hread : (Reader.firstOf readers).Reads ahead rest good) :
    (Reader.firstOf (assignment s inner :: access s inner false :: readers)).Reads ahead rest
      good := by
  obtain ⟨hassignment, haccess⟩ := refuses_variables inner hs h
  exact .firstOf_tail hassignment (.firstOf_tail (haccess false) hread)

/-- Text is read where nothing opens. -/
theorem reads_chunk_text (hs : s.grammar = .standard) {letters : Text} (hne : letters ≠ [])
    (hplain : ∀ u ∈ letters, Plain u) (hstop : StopsText context rest)
    (huncommented : Uncommented rest) :
    (chunk s inner context).Reads (letters ++ rest) rest (· = .literal letters) := by
  -- letters begin none of the other productions, so text is the one that is left
  have hhead := Text.head_append hne hplain rest
  have hbrace : (letters ++ rest).startsWith [123] = false := startsWith_of_plain hhead (by decide)
  have hvariable : (letters ++ rest).startsWith [36, 123] = false :=
    startsWith_of_plain hhead (by decide)
  have hwrap : (letters ++ rest).startsWith [37, 123] = false :=
    startsWith_of_plain hhead (by decide)
  have hwildcard : (letters ++ rest).startsWith [95, 95] = false :=
    startsWith_of_plain hhead (by decide)
  refine reads_chunk_braces hs hbrace (reads_firstOf_variables hs hvariable ?_)
  refine .firstOf_tail (refuses_wrapBlock inner hs hwrap)
    (.firstOf_tail (refuses_braces inner hs hbrace).2.2.2 ?_)
  refine .firstOf_tail (refuses_wildcard inner hs hwildcard) (.firstOf_head ?_)
  exact reads_text hs hne hplain hstop (.inr huncommented)

/-- A literal of letters is read back. -/
theorem reads_chunk_literal (hs : s.grammar = .standard) {letters : Text}
    (hletters : letters.IsLetters) (hstop : StopsText context rest)
    (huncommented : Uncommented rest) :
    (chunk s inner context).Reads (letters ++ rest) rest (Command.literal letters).Alike :=
  (reads_chunk_text hs hletters.1 (plain_of_isLetters hletters) hstop huncommented).mono
    fun _ hread => congrArg Command.unlabelled hread

end Dispatch

/-- A node that is no text is read by the first production that does not refuse it. The
cases are the kinds of nodes, each with the refusals of the productions that are tried
before its own. -/
theorem reads_chunk (hs : s.grammar = .standard) (context : Context) {command : Command}
    (h : command.Printable) (hchild : command.IsChild) (hliteral : ¬command.IsLiteral)
    (hinner : ∀ part ∈ command.parts, part.PrintableOperand → inner.ReadsBack part) :
    (chunk s inner context).Reads (command.print ++ rest) rest command.Alike := by
  cases h with
  | literal => exact absurd trivial hliteral
  | sequence => exact hchild.elim
  | @variant label options least most separator sampling settings values =>
    have hoptions : ∀ option ∈ options, inner.ReadsOption option := fun option hmem =>
      ⟨settings.weights option hmem, values option hmem,
        hinner _ (List.mem_map_of_mem hmem) (values option hmem)⟩
    have hread := reads_variantBlock hs settings hoptions label rest
    obtain ⟨first, options, rfl⟩ := List.exists_cons_of_ne_nil settings.some
    have hfirst := hoptions first List.mem_cons_self
    have hends : Ends .block (behind (options.map printOption) (units "\x7d" ++ rest)) :=
      (Ends.close rest).behind _
    have hbounds := beginsOption_printBounds least most separator (beginsOption_print hfirst hends)
    have hhead := head_variant sampling hbounds
    obtain ⟨hprobability, hcondition⟩ := refuses_variant hs settings hfirst label rest
    rw [print_variant] at hprobability hcondition hread ⊢
    refine .firstOf_tail (refuses_commentBlock hs hhead)
      (.firstOf_tail hprobability (.firstOf_tail hcondition ?_))
    exact reads_firstOf_variables hs rfl (.firstOf_tail (refuses_wrapBlock inner hs rfl)
      (.firstOf_head hread))
  | @wildcard label name sampling letters =>
    have hread := reads_wildcard inner hs label letters sampling rest
    rw [Command.print] at hread ⊢
    refine reads_chunk_braces hs rfl (reads_firstOf_variables hs rfl ?_)
    refine .firstOf_tail (refuses_wrapBlock inner hs rfl)
      (.firstOf_tail (refuses_braces inner hs rfl).2.2.2 ?_)
    exact .firstOf_head hread
  | @wrap wrapper wrapped outside inside =>
    have houter := hinner wrapper (by simp [Command.parts]) outside
    have hwithin := hinner wrapped (by simp [Command.parts]) inside
    have hread := reads_wrapBlock hs outside houter inside hwithin rest
    rw [Command.print] at hread ⊢
    exact reads_chunk_braces hs rfl (reads_firstOf_variables hs rfl (.firstOf_head hread))
  | @condition branches otherwise some guards values last =>
    have hbranches : ∀ branch ∈ branches, inner.ReadsBranch branch := fun branch hmem =>
      ⟨guards branch hmem, values branch hmem,
        hinner _ (List.mem_append_left _ (List.mem_map_of_mem hmem)) (values branch hmem)⟩
    have hotherwise := hinner otherwise (by simp [Command.parts]) last
    have hread := reads_conditionBlock hs some hbranches last hotherwise rest
    -- the test begins with a letter, which makes neither a comment nor a chance
    obtain ⟨first, branches, rfl⟩ := List.exists_cons_of_ne_nil some
    obtain ⟨⟨u, text, hprint, hletter⟩, -, -⟩ := printGuard_units (guards first List.mem_cons_self)
    obtain ⟨hblank, hdigit⟩ := CodeUnit.isBlank_of_isLetter hletter
    rw [print_condition, printBranch, hprint] at hread ⊢
    refine .firstOf_tail (refuses_commentBlock hs fun v hv => ?_)
      (.firstOf_tail (refuses_probabilityBlock hs fun v hv => ?_) (.firstOf_head hread))
    · cases hv
      exact ⟨hblank, CodeUnit.ne_of_isLetter hletter (by decide)⟩
    · cases hv
      exact ⟨hblank, hdigit, CodeUnit.ne_of_isLetter hletter (by decide)⟩
  | @access name fallback letters value =>
    have hread := reads_access hs letters (fun part hmem =>
      ⟨value part hmem, hinner part (Option.mem_toList.2 hmem) (value part hmem)⟩) rest
    have hassignment := refuses_assignment inner hs letters fallback rest
    rw [print_access] at hread hassignment ⊢
    exact reads_chunk_braces hs rfl (.firstOf_tail hassignment (.firstOf_head hread))
  | @assignment name value overwrite immediate letters bound =>
    have hvalue := hinner value (by simp [Command.parts]) bound
    have hread := reads_assignment hs letters bound hvalue overwrite immediate rest
    rw [print_assignment] at hread ⊢
    exact reads_chunk_braces hs rfl (.firstOf_head hread)

/-! ## 5. Trees -/

/-- Where the chunks that are left begin no comment can, and behind a literal no text. -/
theorem ahead_items {items : List Command} (h : Command.PrintableItems items)
    (hrest : Ends context rest) :
    Uncommented ((items.map Command.print).flatten ++ rest) ∧
      ((∀ item ∈ items.head?, ¬item.IsLiteral) →
        StopsText context ((items.map Command.print).flatten ++ rest)) := by
  cases items with
  | nil => exact ⟨hrest.uncommented, fun _ => hrest.stopsText⟩
  | cons item items =>
    have hprintable := h.each item List.mem_cons_self
    rw [List.map_cons, List.flatten_cons, List.append_assoc]
    -- a literal begins with a letter, any other item with a mark, and
    -- without items the rest follows
    by_cases hliteral : item.IsLiteral
    · refine ⟨?_, fun hnone => absurd hliteral (hnone item rfl)⟩
      cases hprintable with
      | literal hletters =>
        rw [Command.print]
        exact uncommented_of_plain (Text.head_append hletters.1 (plain_of_isLetters hletters) _)
      | _ => exact hliteral.elim
    · have hopens := opens_print hprintable (h.child item List.mem_cons_self) hliteral
        ((items.map Command.print).flatten ++ rest)
      exact ⟨hopens.uncommented, fun _ => hopens.stopsText context⟩

/-- The chunks of one level, in order. The induction is on the chunks: a literal goes up to
the next chunk, which is none, and any other chunk ends with its own delimiter. -/
theorem reads_chunks (hs : s.grammar = .standard) {items : List Command}
    (h : Command.PrintableItems items)
    (hinner : ∀ item ∈ items, ∀ part ∈ item.parts, part.PrintableOperand → inner.ReadsBack part)
    (hrest : Ends context rest) {rounds : Nat} (hrounds : items.length < rounds) :
    (chunks s inner context rounds).Reads ((items.map Command.print).flatten ++ rest) rest
      fun read => read.map Command.unlabelled = items.map Command.unlabelled := by
  induction items generalizing rounds with
  | nil =>
    obtain ⟨rounds, rfl⟩ := Nat.exists_eq_succ_of_ne_zero (Nat.ne_zero_of_lt hrounds)
    rw [chunks]
    refine (reads_skipComments hrest.uncommented).bind fun _ _ => ?_
    refine (refuses_chunk inner hs hrest).attempt.bind fun found hfound => ?_
    rw [hfound]
    exact .pure rfl
  | cons item items ih =>
    obtain ⟨rounds, rfl⟩ := Nat.exists_eq_succ_of_ne_zero (Nat.ne_zero_of_lt hrounds)
    obtain ⟨happart, hchain⟩ := List.isChain_cons.1 h.apart
    have hitems : Command.PrintableItems items :=
      ⟨fun other hmem => h.child other (List.mem_cons_of_mem _ hmem), hchain,
        fun other hmem => h.each other (List.mem_cons_of_mem _ hmem)⟩
    have huncommented := (ahead_items h hrest).1
    have hprintable := h.each item List.mem_cons_self
    have hfirst : (chunk s inner context).Reads
        (item.print ++ ((items.map Command.print).flatten ++ rest))
        ((items.map Command.print).flatten ++ rest) item.Alike := by
      by_cases hliteral : item.IsLiteral
      · obtain ⟨hcomments, hstops⟩ := ahead_items hitems hrest
        cases hprintable with
        | literal hletters =>
          -- no literal is next, so the text cannot go on beyond this one
          have hstop := hstops fun next hnext hboth => happart next hnext ⟨trivial, hboth⟩
          rw [Command.print]
          exact reads_chunk_literal hs hletters hstop hcomments
        | _ => exact hliteral.elim
      · exact reads_chunk hs context hprintable (h.child item List.mem_cons_self) hliteral
          (hinner item List.mem_cons_self)
    rw [List.map_cons, List.flatten_cons, List.append_assoc] at huncommented ⊢
    rw [chunks]
    refine (reads_skipComments huncommented).bind fun _ _ =>
      hfirst.attempt.bind fun found hfound => ?_
    obtain ⟨read, rfl, hread⟩ := hfound
    refine (ih hitems (fun other hmem => hinner other (List.mem_cons_of_mem _ hmem))
      (Nat.lt_of_succ_lt_succ hrounds)).bind fun others hothers => .pure ?_
    rw [List.map_cons, List.map_cons, hothers, hread]

/-! ## 6. Depth -/

/-- A piece is no longer than the pieces that are joined. -/
theorem length_le_join {separator : Text} {pieces : List Text} :
    ∀ piece ∈ pieces, piece.length ≤ (Text.join separator pieces).length := by
  fun_induction Text.join separator pieces with
  | case1 => exact nofun
  | case2 piece => exact fun other hmem => by rw [List.mem_singleton.1 hmem]
  | case3 piece pieces _ ih =>
    intro other hmem
    rw [List.length_append, List.length_append]
    rcases List.mem_cons.1 hmem with rfl | hmem
    · omega
    · have := ih other hmem
      omega

/-- A part of a node prints shorter than the node, and can be printed in a block. -/
theorem length_print_part {command : Command} (h : command.Printable) (hchild : command.IsChild) :
    ∀ part ∈ command.parts, part.PrintableOperand ∧ part.print.length < command.print.length := by
  cases h with
  | literal => exact nofun
  | sequence => exact hchild.elim
  | wildcard => exact nofun
  | @variant label options least most separator sampling settings values =>
    intro part hmem
    obtain ⟨option, hoption, rfl⟩ := List.mem_map.1 hmem
    have hpiece : (printOption option).length ≤
        (Text.join (units "|") (options.map printOption)).length :=
      length_le_join _ (List.mem_map_of_mem hoption)
    have hopen : (units "\x7b").length = 1 := rfl
    have hprint : Command.printOptions options = options.map printOption :=
      Command.printOptions_eq options
    refine ⟨values option hoption, ?_⟩
    rw [printOption, List.length_append] at hpiece
    rw [Command.print, hprint]
    simp only [List.length_append, hopen]
    omega
  | @wrap wrapper wrapped outside inside =>
    have hopen : (units "%\x7b").length = 2 := rfl
    rw [Command.print, Command.parts]
    simp only [List.forall_mem_cons, List.length_append, hopen]
    exact ⟨⟨outside, by omega⟩, ⟨inside, by omega⟩, List.forall_mem_nil _⟩
  | @condition branches otherwise some guards values last =>
    have hprint : (Command.condition branches otherwise).print.length =
        1 + (Text.join (units "|") (branches.map printBranch)).length +
          (printOtherwise otherwise).length + 1 := by
      rw [Command.print, Command.printBranches_eq]
      simp only [List.length_append]
      exact (Nat.add_assoc _ _ _).symm
    -- the last resort is printed without its bar when it is empty
    have hotherwise : otherwise.print.length ≤ (printOtherwise otherwise).length := by
      unfold printOtherwise
      split
      · next hempty => rw [hempty]
      · rw [List.length_append]
        omega
    rw [Command.parts, hprint]
    intro part hmem
    rcases List.mem_append.1 hmem with hmem | hmem
    · obtain ⟨branch, hbranch, rfl⟩ := List.mem_map.1 hmem
      have hpiece : (printBranch branch).length ≤
          (Text.join (units "|") (branches.map printBranch)).length :=
        length_le_join _ (List.mem_map_of_mem hbranch)
      rw [printBranch, List.length_append, List.length_append] at hpiece
      exact ⟨values branch hbranch, by omega⟩
    · rw [List.mem_singleton.1 hmem]
      exact ⟨last, by omega⟩
  | @access name fallback letters value =>
    have hopen : (units "$\x7b").length = 2 := rfl
    intro part hmem
    rw [Command.parts, Option.mem_toList] at hmem
    cases hmem
    refine ⟨value part rfl, ?_⟩
    rw [Command.print]
    simp only [List.length_append, hopen]
    omega
  | @assignment name value overwrite immediate letters bound =>
    have hopen : (units "$\x7b").length = 2 := rfl
    intro part hmem
    cases List.mem_singleton.1 hmem
    refine ⟨bound, ?_⟩
    rw [Command.print]
    simp only [List.length_append, hopen]
    omega

/-- There are no more nodes than units printed of them. -/
theorem length_items_le {items : List Command} (h : Command.PrintableItems items) :
    items.length ≤ (items.map Command.print).flatten.length := by
  obtain ⟨-, -, heach⟩ := h
  induction items with
  | nil => exact Nat.le_refl _
  | cons item items ih =>
    obtain ⟨u, text, hprint, -⟩ := (heach item List.mem_cons_self).print_head
    have hrest := ih fun other hmem => heach other (List.mem_cons_of_mem _ hmem)
    rw [List.map_cons, List.flatten_cons, hprint, List.length_append, List.length_cons,
      List.length_cons]
    omega

/-- Chunks that are put together again are told by what is left without their labels. -/
theorem alike_ofList {command : Command} {items read : List Command}
    (hofList : Command.ofList items = command)
    (h : read.map Command.unlabelled = items.map Command.unlabelled) :
    command.Alike (Command.ofList read) := by
  rw [Command.Alike, ← hofList, Command.unlabelled, Command.unlabelled, Command.relabelled_ofList,
    Command.relabelled_ofList, h]

/-- What is printed is read back where less is printed than there is depth. The induction is
on the depth: the parts of a chunk print shorter than the chunk. -/
theorem reads_chunksWith (origin : Origin) {depth : Nat} (base : List Nat) (context : Context)
    (source : Text) {command : Command} (h : command.PrintableOperand)
    (hdepth : command.print.length < depth) (hrest : Ends context rest) :
    (chunksWith .standard origin depth base context source).Reads (command.print ++ rest) rest
      command.Alike := by
  induction depth generalizing base context source command rest with
  | zero => exact absurd hdepth (Nat.not_lt_zero _)
  | succ depth ih =>
    obtain ⟨hitems, hprint, hofList⟩ := h.items
    -- a part is shorter than its chunk, and a chunk is no longer than the command
    have hinner : ∀ item ∈ command.items, ∀ part ∈ item.parts, part.PrintableOperand →
        Inner.ReadsBack ⟨chunksWith .standard origin depth base .block source,
          fun base value => whole .standard (chunksWith .standard origin depth base .prompt) value⟩
          part := by
      intro item hitem part hpart hprintable rest hrest
      refine ih base .block source hprintable ?_ hrest
      have hless :=
        (length_print_part (hitems.each item hitem) (hitems.child item hitem) part hpart).2
      have hle : item.print.length ≤ command.print.length := by
        rw [← hprint]
        exact (List.sublist_flatten_of_mem (List.mem_map_of_mem hitem)).length_le
      omega
    rw [chunksWith]
    refine .bind_here fun c hc => ?_
    rw [← hprint]
    have hgrammar : (⟨.standard, origin, base, source⟩ : Setting).grammar = .standard := rfl
    refine (reads_chunks hgrammar hitems hinner hrest ?_).bind fun read hread =>
      .pure (alike_ofList hofList hread)
    have hcount := length_items_le hitems
    rw [hprint] at hcount
    rw [hc, List.length_append]
    omega

/-! ## 7. Templates -/

/-- A tree that is no literal prints an opener somewhere. -/
theorem exists_opener {command : Command} (h : command.Printable) (hliteral : ¬command.IsLiteral) :
    ∃ u ∈ command.print, u ∈ [123, 36, 37, 95] := by
  have hnode : ∀ node : Command, node.Printable → node.IsChild → ¬node.IsLiteral →
      ∃ u ∈ node.print, u ∈ [123, 36, 37, 95] := by
    intro node hprintable hchild hnot
    have hopens := opens_print hprintable hchild hnot []
    rw [List.append_nil] at hopens
    generalize node.print = text at hopens
    cases hopens with
    | _ => exact ⟨_, List.mem_cons_self, by simp⟩
  by_cases hchild : command.IsChild
  · exact hnode command h hchild hliteral
  · cases h with
    | @sequence children several child apart each =>
      -- of two neighbours one is no literal
      obtain ⟨item, hitem, hnot⟩ : ∃ item ∈ children, ¬item.IsLiteral := by
        rcases children with _ | ⟨first, _ | ⟨second, children⟩⟩
        · cases several
        · exact absurd several (by simp)
        · by_cases hfirst : first.IsLiteral
          · have happart := (List.isChain_cons_cons.1 apart).1
            exact ⟨second, by simp, fun hsecond => happart ⟨hfirst, hsecond⟩⟩
          · exact ⟨first, by simp, hfirst⟩
      obtain ⟨u, hu, hopener⟩ := hnode item (each item hitem) (child item hitem) hnot
      refine ⟨u, ?_, hopener⟩
      rw [Command.print, Command.printAll_eq]
      exact List.mem_flatten.2 ⟨_, List.mem_map_of_mem hitem, hu⟩
    | literal letters => exact absurd trivial hliteral
    | _ => exact absurd trivial hchild

/-- No opener is a letter or a number. -/
theorem isAlphanumeric_print {command : Command} (h : command.Printable)
    (hliteral : ¬command.IsLiteral) : command.print.isAlphanumeric = false := by
  obtain ⟨u, hu, hopener⟩ := exists_opener h hliteral
  have hmark : ∀ u ∈ ([123, 36, 37, 95] : Text), (u.isHigh = false ∧ u.isLow = false) ∧
      isAlphanumeric u.toNat = false := by
    simp only [List.forall_mem_cons]
    exact ⟨by decide +kernel, by decide +kernel, by decide +kernel, by decide +kernel, nofun⟩
  obtain ⟨⟨hhigh, hlow⟩, hnot⟩ := hmark u hopener
  rw [Text.isAlphanumeric, Bool.and_eq_false_iff]
  refine .inr (List.all_eq_false.2 ⟨u.toNat, Text.mem_points hhigh hlow hu, ?_⟩)
  rw [hnot]
  exact Bool.false_ne_true

end Template

/-- **What is printed is read back.** The template of a printable tree is read, from
whichever origin, and what is read is the tree up to the labels of its nodes. -/
theorem Grammar.parse_print {tree : Command} (h : tree.Printable) (origin : Origin) :
    ∃ read, Grammar.standard.parse origin tree.print = .ok read ∧
      read.unlabelled = tree.unlabelled := by
  have hdepth : tree.print.length < tree.print.length + 1 := Nat.lt_add_one _
  have hread := Template.reads_chunksWith origin [] .prompt tree.print (fun _ => h) hdepth .source
  rw [List.append_nil] at hread
  obtain ⟨read, after, f, hrun, hafter, halike⟩ := hread (.start tree.print) ⟨0, []⟩ rfl
  rw [Grammar.parse, Template.whole]
  split
  · next hplain =>
    -- a source of letters and numbers is taken as it is, without being read
    rw [Bool.and_eq_true] at hplain
    by_cases hliteral : tree.IsLiteral
    · cases h with
      | literal => exact ⟨_, rfl, by rw [Command.print]⟩
      | _ => exact hliteral.elim
    · rw [Template.isAlphanumeric_print h hliteral] at hplain
      cases hplain.1
  · have huncommented : Template.Uncommented after.rest := by
      rw [hafter]
      exact Template.Ends.source.uncommented
    have hempty : after.rest.isEmpty = true := by rw [hafter]; rfl
    simp only [hrun, Template.afterComments?_eq_self huncommented, hempty, if_true]
    exact ⟨read, rfl, halike⟩

/-- A variable with a wrap for its default, and a word. -/
def Command.moodTree : Command :=
  .sequence
    [.access (units "mood") (some (.wrap (.literal (units "very")) (.literal (units "old")))),
      .literal (units "one")]

/-- Two of three options, one of them empty. -/
def Command.animalTree : Command :=
  .variant noLabel
    [⟨1, .wildcard noLabel (.fixed (units "animal")) [] (some .cyclical)⟩, ⟨30, .literal []⟩,
      ⟨2, moodTree⟩]
    1 2 (units "and") (some .random)

/-- Nothing, or a binding; the first option has a weight. -/
def Command.bindingTree : Command :=
  .variant noLabel
    [⟨2, .literal []⟩, ⟨1, .assignment (units "k") (.literal (units "v")) false true⟩]
    1 1 (units ",") none

/-- Blocks of every kind, in a sequence and in one another. -/
def Command.nestedTree : Command :=
  .sequence [.literal (units "A"), animalTree,
    .condition
      [⟨⟨some (units "kind"), units "dog", ⟨.word (units "dog"), 0⟩⟩, bindingTree⟩,
        ⟨⟨none, units "cat", ⟨.word (units "cat"), 0⟩⟩, .literal (units "purrs")⟩]
      (.literal (units "sits"))]

/-- The template of `Command.nestedTree`. -/
def nestedTemplate : Text :=
  units ("A\x7b~1-2$$and$$__@animal__|30::|2::$\x7bmood:%\x7bvery$$old\x7d\x7done\x7d" ++
    "\x7bkind~=dog::\x7b2::|$\x7bk?=!v\x7d\x7d|cat::purrs|sits\x7d")

/-- What is printed of the tree. -/
theorem Command.print_nestedTree : nestedTree.print = nestedTemplate := by
  decide +kernel

/-- Letters can be printed as an operand. -/
theorem Command.printableOperand_word {text : Text} (h : text.IsLetters) :
    (Command.literal text).PrintableOperand := fun _ => .literal h

/-- The tree of the mood can be printed. -/
theorem Command.printable_moodTree : moodTree.Printable := by
  refine .sequence (by decide) ?_ ?_ ?_
  · simp only [List.forall_mem_cons]
    exact ⟨trivial, List.cons_ne_nil _ _, nofun⟩
  · simp [Apart, IsLiteral]
  · simp only [List.forall_mem_cons]
    refine ⟨.access (by decide) fun value hvalue _ => ?_, .literal (by decide), nofun⟩
    cases hvalue
    exact .wrap (printableOperand_word (by decide)) (printableOperand_word (by decide))

/-- So can the tree of the animal. -/
theorem Command.printable_animalTree : animalTree.Printable := by
  refine .variant ⟨by simp, ?_, by decide, by decide, .inr (by decide), fun option hoption => ?_⟩ ?_
  · simp only [List.forall_mem_cons]
    exact ⟨⟨1, by decide, by decide, rfl⟩, ⟨30, by decide, by decide, rfl⟩,
      ⟨2, by decide, by decide, rfl⟩, nofun⟩
  · cases hoption
    exact .inl rfl
  · simp only [List.forall_mem_cons]
    exact ⟨fun _ => .wildcard (by decide), absurd rfl, fun _ => printable_moodTree, nofun⟩

/-- So can the tree of the binding. -/
theorem Command.printable_bindingTree : bindingTree.Printable := by
  refine .variant ⟨by simp, ?_, by decide, by decide, .inl rfl, fun option _ => ?_⟩ ?_
  · simp only [List.forall_mem_cons]
    exact ⟨⟨2, by decide, by decide, rfl⟩, ⟨1, by decide, by decide, rfl⟩, nofun⟩
  · exact .inr ⟨rfl, rfl, Nat.le_refl 2⟩
  · simp only [List.forall_mem_cons]
    exact ⟨absurd rfl, fun _ => .assignment (by decide) (printableOperand_word (by decide)), nofun⟩

/-- So can all of them together. -/
theorem Command.printable_nestedTree : nestedTree.Printable := by
  refine .sequence (by decide) ?_ ?_ ?_
  · simp only [List.forall_mem_cons]
    exact ⟨List.cons_ne_nil _ _, trivial, trivial, nofun⟩
  · simp [Apart, IsLiteral, animalTree]
  · simp only [List.forall_mem_cons]
    have hlast : (Command.literal (units "sits")).PrintableOperand :=
      printableOperand_word (by decide)
    refine ⟨.literal (by decide), printable_animalTree, .condition (by simp) ?_ ?_ hlast, nofun⟩
    · simp only [List.forall_mem_cons]
      exact ⟨.word (by decide) (by decide) (by decide), .word nofun (by decide) (by decide), nofun⟩
    · simp only [List.forall_mem_cons]
      exact ⟨fun _ => printable_bindingTree, printableOperand_word (by decide), nofun⟩

/-- A tree of every kind of block is read back but for the labels. -/
theorem Grammar.parse_print_of_nested : Command.nestedTree.Printable ∧
    ∃ read, standard.parse (.built 0) nestedTemplate = .ok read ∧
      read.unlabelled = Command.nestedTree.unlabelled := by
  refine ⟨Command.printable_nestedTree, ?_⟩
  rw [← Command.print_nestedTree]
  exact Grammar.parse_print Command.printable_nestedTree (.built 0)

end PromptTemplate
