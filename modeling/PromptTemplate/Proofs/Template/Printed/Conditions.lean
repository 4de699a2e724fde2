/-
`Conditions.lean` -- reading a printed condition.

A branch begins with a pattern up to its colons, and whether there is one decides between
a branch, a last resort and a variant. Outside of braces a printed node holds no colon
(`hidesPatterns_print`), so no search for one gets beyond the operand that it starts at.
-/
import Mathlib.Data.List.TakeWhile
import PromptTemplate.Proofs.Template.Printed.Operands

set_option autoImplicit false

namespace PromptTemplate.Template

variable {s : Setting} {inner : Inner} {rest : Text}

/-! ## 1. Patterns -/

/-- No pattern ends in the text, and none that begins before it. -/
def HidesPatterns (text : Text) : Prop :=
  ∀ tail, patternText? .standard tail = none → patternText? .standard (text ++ tail) = none

namespace HidesPatterns

variable {text : Text}

theorem cons {u : CodeUnit} (hu : u ≠ 58) (h : HidesPatterns text) : HidesPatterns (u :: text) := by
  intro tail htail
  have hcolons : Text.startsWith (u :: (text ++ tail)) (units "::") = false := by
    refine startsWith_eq_false fun v hv => ?_
    cases hv
    exact hu
  rw [List.cons_append, patternText?, hcolons, if_neg Bool.false_ne_true, h tail htail,
    Option.map_none, ite_self]

theorem of_forall (h : ∀ u ∈ text, u ≠ 58) : HidesPatterns text := by
  induction text with
  | nil => exact fun _ htail => htail
  | cons u text ih =>
    exact .cons (h u List.mem_cons_self) (ih fun v hv => h v (List.mem_cons_of_mem _ hv))

theorem append {other : Text} (h : HidesPatterns text) (hother : HidesPatterns other) :
    HidesPatterns (text ++ other) := by
  intro tail htail
  rw [List.append_assoc]
  exact h _ (hother tail htail)

/-- A brace ends every search. -/
theorem brace (text : Text) : HidesPatterns (123 :: text) := fun _ _ => rfl

end HidesPatterns

/-- Letters hold no colon. -/
theorem ne_colon {letters : Text} (h : letters.IsLetters) : ∀ u ∈ letters, u ≠ 58 :=
  fun u hu => CodeUnit.ne_of_isLetter (h.2 u hu) (by decide)

theorem markerText_ne_colon (sampling : Option Sampling) :
    ∀ u ∈ Command.markerText sampling, u ≠ 58 := by
  intro u hu
  cases sampling with
  | none => cases hu
  | some method =>
    rw [List.mem_singleton.1 (show u ∈ [method.marker] from hu)]
    cases method <;> decide

/-- Outside of braces a printed node holds no colon. -/
theorem hidesPatterns_print {command : Command} (h : command.Printable) :
    HidesPatterns command.print := by
  induction h with
  | literal letters =>
    rw [Command.print]
    exact .of_forall (ne_colon letters)
  | @sequence children _ _ _ _ ih =>
    rw [Command.print, Command.printAll_eq]
    -- over the children alone: the hypotheses about the whole sequence stay behind
    clear * - ih
    induction children with
    | nil => exact fun _ htail => htail
    | cons child children ihs =>
      rw [List.map_cons, List.flatten_cons]
      exact (ih child List.mem_cons_self).append (ihs fun other hmem =>
        ih other (List.mem_cons_of_mem _ hmem))
  | variant =>
    rw [Command.print]
    exact .brace _
  | condition =>
    rw [Command.print]
    exact .brace _
  | @wildcard label name sampling letters =>
    have hmark : ∀ u ∈ units "__", u ≠ 58 := fun u hu => ne_of_mem_of_not_mem hu (by decide)
    rw [Command.print]
    refine .of_forall fun u hu => ?_
    simp only [Command.printName, List.mem_append, List.append_nil] at hu
    rcases hu with hu | (hu | hu) | hu
    · exact hmark u hu
    · exact markerText_ne_colon sampling u hu
    · exact ne_colon letters u hu
    · exact hmark u hu
  | wrap =>
    rw [Command.print]
    exact .cons (by decide) (.brace _)
  | @access name fallback =>
    cases fallback with
    | _ =>
      rw [Command.print]
      exact .cons (by decide) (.brace _)
  | assignment =>
    rw [Command.print]
    exact .cons (by decide) (.brace _)

theorem hidesPatterns_operand {command : Command} (h : command.PrintableOperand) :
    HidesPatterns command.print := by
  by_cases hempty : command = .literal []
  · subst hempty
    exact .of_forall nofun
  · exact hidesPatterns_print (h hempty)

/-- Behind an operand of braces a bar or the closing brace ends every search. -/
theorem patternText?_behind (pieces : List Text) (rest : Text) :
    patternText? .standard (behind pieces (units "\x7d" ++ rest)) = none := by
  cases pieces with
  | nil => rfl
  | cons piece pieces => rfl

/-- A pattern reaches up to its colons. -/
theorem patternText?_append {raw : Text} (hraw : ∀ u ∈ raw, u ∉ [58, 123, 124, 125]) (rest : Text) :
    patternText? .standard (raw ++ (units "::" ++ rest)) = some raw := by
  induction raw with
  | nil => rfl
  | cons u raw ih =>
    -- none of the marks that end a pattern is among its units
    have hu : u ≠ 58 ∧ u ≠ 123 ∧ u ≠ 124 ∧ u ≠ 125 := by simpa using hraw u List.mem_cons_self
    obtain ⟨hcolon, hopen, hbar, hclose⟩ := hu
    have hstarts : ∀ (v : CodeUnit) (token : Text), u ≠ v →
        Text.startsWith (u :: (raw ++ (units "::" ++ rest))) (v :: token) = false := by
      intro v token hv
      refine startsWith_eq_false fun w hw => ?_
      cases hw
      exact hv
    have hcolons : Text.startsWith (u :: (raw ++ (units "::" ++ rest))) (units "::") = false :=
      hstarts 58 _ hcolon
    have hstart : Text.startsWith (u :: (raw ++ (units "::" ++ rest)))
        Grammar.standard.variantStart = false := hstarts 123 _ hopen
    have hend : Text.startsWith (u :: (raw ++ (units "::" ++ rest)))
        Grammar.standard.variantEnd = false := hstarts 125 _ hclose
    have hmore := ih fun v hv => hraw v (List.mem_cons_of_mem _ hv)
    rw [List.cons_append, patternText?, hcolons, hstart, hend, hmore]
    simp [hbar]

theorem reads_pattern (hs : s.grammar = .standard) {raw : Text} (hne : raw ≠ [])
    (hraw : ∀ u ∈ raw, u.isBlank = false ∧ u ∉ [58, 123, 124, 125])
    (hnumber : isNumberLike raw = false) :
    (pattern s).Reads (raw ++ (units "::" ++ rest)) rest (· = raw) := by
  rw [pattern, hs]
  refine .bind_here fun c hc => ?_
  have hfound := patternText?_append (fun u hu => (hraw u hu).2) rest
  have hdrop : c.rest.drop raw.length = units "::" ++ rest := by rw [hc, List.drop_left]
  have htrim : raw.trim = raw := Text.trim_eq_self fun u hu => (hraw u hu).1
  have hempty : raw.isEmpty = false := by simpa using hne
  simp only [hc, hfound, htrim, hempty, hnumber, Bool.or_self]
  refine (Reader.reads_moveTo hdrop _).bind fun _ _ => (Reader.reads_accept _ _).bind fun _ _ => ?_
  exact .ite_neg Bool.false_ne_true (.pure rfl)

/-- A number is no pattern. -/
theorem refuses_pattern_number (hs : s.grammar = .standard) {digits : Text} (hne : digits ≠ [])
    (hdigits : ∀ u ∈ digits, u.isDigit = true) :
    (pattern s).Refuses (digits ++ (units "::" ++ rest)) := by
  have hbounds : ∀ u ∈ digits, 48 ≤ u.toNat ∧ u.toNat ≤ 57 :=
    fun u hu => CodeUnit.isDigit_iff.1 (hdigits u hu)
  have hraw : ∀ u ∈ digits, u ∉ [58, 123, 124, 125] := by
    intro u hu hmark
    have := hbounds u hu
    simp only [List.mem_cons, List.not_mem_nil, or_false] at hmark
    rcases hmark with rfl | rfl | rfl | rfl <;> revert this <;> decide
  have htrim : digits.trim = digits := Text.trim_eq_self fun u hu =>
    CodeUnit.isBlank_eq_false (by have := hbounds u hu; omega) (by have := hbounds u hu; omega)
  have hnumber : isNumberLike digits = true := by
    have hsplit : splitReal? digits = some (digits, []) := by
      have happend : splitReal? (digits ++ []) = some (digits, []) :=
        splitReal?_digits hne hdigits nofun
      rwa [List.append_nil] at happend
    cases digits with
    | nil => exact absurd rfl hne
    | cons u digits =>
      have hsign : ¬((u = 43 || u = 45) = true) := by
        have := hbounds u List.mem_cons_self
        simp only [Bool.or_eq_true, decide_eq_true_eq]
        rintro (rfl | rfl) <;> revert this <;> decide
      simp only [isNumberLike, if_neg hsign, hsplit, Decimal.exponent?,
        Option.isSome_some, ite_self]
  rw [pattern, hs]
  refine .bind_here fun c hc => ?_
  have hdrop : c.rest.drop digits.length = units "::" ++ rest := by rw [hc, List.drop_left]
  simp only [hc, patternText?_append hraw rest, htrim, hnumber, Bool.or_true]
  -- the colons are found, and what stands before them is looked at last
  refine .bind_reads (Reader.reads_moveTo hdrop _) fun _ _ =>
    .bind_reads (Reader.reads_accept _ _) fun _ _ => ?_
  exact .ite trivial .reject

/-- Where no pattern ends there is no branch. -/
theorem refuses_branch (hs : s.grammar = .standard) {ahead : Text}
    (h : patternText? .standard ahead = none) : (branch s inner).Refuses ahead := by
  rw [branch, pattern, hs]
  refine .bind (.bind_here fun c hc => ?_)
  simp only [hc, h]
  exact .reject

/-! ## 2. Tests -/

/-- A word that is the name of no number is none. -/
theorem isNumberLike_eq_false {u : CodeUnit} {t : Text} (hu : u.isLetter = true)
    (hnames : (u :: t).map CodeUnit.toLower ∉ [units "inf", units "infinity", units "nan"]) :
    isNumberLike (u :: t) = false := by
  have hsign : ¬((u = 43 || u = 45) = true) := by
    simp [CodeUnit.ne_of_isLetter hu (by decide : CodeUnit.isLetter 43 = false),
      CodeUnit.ne_of_isLetter hu (by decide : CodeUnit.isLetter 45 = false)]
  have hsplit : splitReal? (u :: t) = none := by
    refine splitReal?_eq_none fun v hv => ?_
    cases hv
    exact ⟨(CodeUnit.isBlank_of_isLetter hu).2, CodeUnit.ne_of_isLetter hu (by decide)⟩
  simp only [List.mem_cons, List.not_mem_nil, or_false, not_or] at hnames
  obtain ⟨hinf, hinfinity, hnan⟩ := hnames
  simp only [isNumberLike, if_neg hsign, hsplit, hinf, hinfinity, hnan, decide_false, Bool.or_self,
    Bool.false_eq_true, if_false]

/-- The test of a branch begins with a letter, and stands for no number. -/
theorem printGuard_units {guard : Guard} (h : guard.Printable) :
    (∃ u rest, Command.printGuard guard = u :: rest ∧ u.isLetter = true) ∧
      (∀ u ∈ Command.printGuard guard, u.isBlank = false ∧ u ∉ [58, 123, 124, 125]) ∧
      isNumberLike (Command.printGuard guard) = false := by
  obtain ⟨hkey, ⟨hsource, hletters⟩, hnumber, -⟩ := h
  have hletter : ∀ u : CodeUnit, u.isLetter = true →
      u.isBlank = false ∧ u ∉ [58, 123, 124, 125] := by
    intro u hu
    refine ⟨(CodeUnit.isBlank_of_isLetter hu).1, fun hmark => ?_⟩
    simp only [List.mem_cons, List.not_mem_nil, or_false] at hmark
    rcases hmark with rfl | rfl | rfl | rfl <;> cases hu
  obtain ⟨key, source, pattern⟩ := guard
  cases key with
  | none =>
    cases source with
    | nil => exact absurd rfl hsource
    | cons u source =>
      have hu := hletters u List.mem_cons_self
      exact ⟨⟨u, source, rfl, hu⟩, fun v hv => hletter v (hletters v hv),
        isNumberLike_eq_false hu hnumber⟩
  | some key =>
    obtain ⟨hsome, hkeys⟩ := hkey key rfl
    cases key with
    | nil => exact absurd rfl hsome
    | cons u key =>
      have hu := hkeys u List.mem_cons_self
      have hprint : Command.printGuard ⟨some (u :: key), source, pattern⟩ =
          u :: (key ++ units "~=" ++ source) := rfl
      refine ⟨⟨u, _, hprint, hu⟩, fun v hv => ?_, ?_⟩
      · simp only [Command.printGuard, List.mem_append] at hv
        rcases hv with (hv | hv) | hv
        · exact hletter v (hkeys v hv)
        · have hmarks : ∀ v ∈ ([126, 61] : Text),
              v.isBlank = false ∧ v ∉ [58, 123, 124, 125] := by
            simp only [List.forall_mem_cons]
            exact ⟨by decide, by decide, nofun⟩
          exact hmarks v hv
        · exact hletter v (hletters v hv)
      · rw [hprint]
        refine isNumberLike_eq_false hu fun hname => ?_
        -- a tilde stands in the test, and in no name of a number
        have htilde : (126 : CodeUnit) ∈
            (u :: (key ++ units "~=" ++ source)).map CodeUnit.toLower :=
          List.mem_map.2 ⟨126, by simp [show units "~=" = [126, 61] from rfl], rfl⟩
        simp only [List.mem_cons, List.not_mem_nil, or_false] at hname
        rcases hname with hname | hname | hname <;>
          rw [hname] at htilde <;> revert htilde <;> decide

theorem continuesVariable_of_isLetter {u : CodeUnit} (h : u.isLetter = true) :
    beginsVariable u = true ∧ continuesVariable u = true := by
  have hbegins : beginsVariable u = true := by simp [beginsVariable, h]
  exact ⟨hbegins, by simp [continuesVariable, hbegins]⟩

/-- A test is split into the two parts that it was printed from. -/
theorem splitKey_printGuard {guard : Guard} (h : guard.Printable) :
    splitKey (Command.printGuard guard) = (guard.key, guard.source) := by
  obtain ⟨hkey, ⟨hsource, hletters⟩, -, -⟩ := h
  obtain ⟨key, source, pattern⟩ := guard
  cases key with
  -- without a key the letters would read as one, but the mark of a test is missing behind them
  | none =>
    have hall : ∀ u ∈ source, continuesVariable u = true :=
      fun u hu => (continuesVariable_of_isLetter (hletters u hu)).2
    have hdrop : source.dropWhile continuesVariable = [] := List.dropWhile_eq_nil_iff.2 hall
    simp [splitKey, Command.printGuard, hdrop, Text.trimStart]
  | some key =>
    obtain ⟨hsome, hkeys⟩ := hkey key rfl
    have hall : ∀ u ∈ key, continuesVariable u = true :=
      fun u hu => (continuesVariable_of_isLetter (hkeys u hu)).2
    -- the key ends where the mark of the test begins
    have hstop : ∀ u ∈ (units "~=" ++ source).head?, continuesVariable u = false :=
      fun u hu => by cases hu; rfl
    obtain ⟨htake, hdrop⟩ := takeWhile_append_stop hall hstop
    have hbegins : (key ++ (units "~=" ++ source)).head?.any beginsVariable = true := by
      cases key with
      | nil => exact absurd rfl hsome
      | cons u key => exact (continuesVariable_of_isLetter (hkeys u List.mem_cons_self)).1
    have htrim : Text.trimStart source = source := Text.trimStart_eq_self fun u hu =>
      (CodeUnit.isBlank_of_isLetter (hletters u (List.mem_of_mem_head? hu))).1
    have hmarks : Text.trimStart (units "~=" ++ source) = 126 :: 61 :: source := rfl
    simp only [splitKey, Command.printGuard, List.append_assoc, hbegins, if_true, hdrop, hmarks,
      htake, htrim]

/-! ## 3. Branches -/

/-- What is read is the branch. -/
structure ReadsAsBranch (branch : Guarded Command) (read : Command.BranchInput) : Prop where
  key : read.key = branch.guard.key
  pattern : read.pattern = branch.guard.source
  value : branch.value.Alike read.value

/-- A branch whose value the recursive call reads back. -/
structure Inner.ReadsBranch (inner : Inner) (branch : Guarded Command) : Prop where
  guard : branch.guard.Printable
  value : branch.value.PrintableOperand
  reads : inner.ReadsBack branch.value

/-- A branch as it is printed. -/
def printBranch (branch : Guarded Command) : Text :=
  Command.printGuard branch.guard ++ (units "::" ++ branch.value.print)

theorem reads_branch (hs : s.grammar = .standard) {branch : Guarded Command}
    (h : inner.ReadsBranch branch) (hrest : Ends .block rest) :
    (Template.branch s inner).Reads (printBranch branch ++ rest) rest (ReadsAsBranch branch) := by
  obtain ⟨⟨u, text, hprint, -⟩, hunits, hnumber⟩ := printGuard_units h.guard
  have hne : Command.printGuard branch.guard ≠ [] := by
    rw [hprint]
    exact List.cons_ne_nil u text
  rw [Template.branch, printBranch, List.append_assoc, List.append_assoc]
  refine (reads_pattern hs hne hunits hnumber).bind fun raw hraw => ?_
  rw [hraw, splitKey_printGuard h.guard]
  exact (reads_operand h.value h.reads hrest).bind fun value hvalue => .pure ⟨rfl, rfl, hvalue⟩

/-- The last resort as it is printed: not at all when it is empty. -/
def printOtherwise (otherwise : Command) : Text :=
  match otherwise.print with
  | [] => []
  | text => units "|" ++ text

theorem ends_otherwise (otherwise : Command) (rest : Text) :
    Ends .block (printOtherwise otherwise ++ (units "\x7d" ++ rest)) := by
  unfold printOtherwise
  split
  · exact .close rest
  · exact .bar _

/-- The branches behind the first, each up to the next bar, and the last resort. The
induction is on the branches; the last resort is what no branch can be read from. -/
theorem reads_moreBranches (hs : s.grammar = .standard) {branches : List (Guarded Command)}
    (h : ∀ branch ∈ branches, inner.ReadsBranch branch) {otherwise : Command}
    (hotherwise : otherwise.PrintableOperand) (hreads : inner.ReadsBack otherwise) {rounds : Nat}
    (hrounds : branches.length < rounds) :
    (moreBranches s inner rounds).Reads
      (behind (branches.map printBranch) (printOtherwise otherwise ++ (units "\x7d" ++ rest)))
      (units "\x7d" ++ rest)
      fun read => List.Forall₂ ReadsAsBranch branches read.1 ∧ otherwise.Alike read.2 := by
  induction branches generalizing rounds with
  | nil =>
    obtain ⟨rounds, rfl⟩ := Nat.exists_eq_succ_of_ne_zero (Nat.ne_zero_of_lt hrounds)
    rw [moreBranches, List.map_nil, behind, List.foldr_nil]
    by_cases hempty : otherwise = .literal []
    · -- no bar is left: the block ends here
      subst hempty
      refine (Reader.reads_tryAccept_false rfl).bind fun found hfound => ?_
      exact .ite_neg (by simp [hfound]) (.pure ⟨.nil, rfl⟩)
    · obtain ⟨u, text, hprint, hu⟩ := (hotherwise hempty).print_head
      have htail : printOtherwise otherwise = units "|" ++ otherwise.print := by
        rw [printOtherwise, hprint]
      have hnone : patternText? .standard (otherwise.print ++ (units "\x7d" ++ rest)) = none :=
        hidesPatterns_operand hotherwise _ (patternText?_behind [] rest)
      have hblank : ∀ u ∈ (otherwise.print ++ (units "\x7d" ++ rest)).head?, u.isBlank = false :=
        fun u hu => (beginsOperand_print hotherwise (.close rest) u hu).isBlank.1
      rw [htail, List.append_assoc]
      refine (Reader.reads_tryAccept _ _).bind fun found hfound => .ite hfound ?_
      -- behind the last bar a branch is tried in vain, since no pattern ends before the brace
      have hbranch : (Reader.skipBlanks >>= fun _ => branch s inner).Refuses
          (otherwise.print ++ (units "\x7d" ++ rest)) :=
        .bind_reads (Reader.reads_skipBlanks hblank) fun _ _ => refuses_branch hs hnone
      refine hbranch.attempt.bind fun next hnext => ?_
      rw [hnext]
      exact (reads_operand hotherwise hreads (.close rest)).bind fun value hvalue =>
        .pure ⟨.nil, hvalue⟩
  | cons first branches ih =>
    obtain ⟨rounds, rfl⟩ := Nat.exists_eq_succ_of_ne_zero (Nat.ne_zero_of_lt hrounds)
    have hfirst := h first List.mem_cons_self
    obtain ⟨⟨u, text, hprint, hletter⟩, -, -⟩ := printGuard_units hfirst.guard
    have hends := (ends_otherwise otherwise rest).behind (branches.map printBranch)
    rw [moreBranches, List.map_cons, behind, List.foldr_cons, ← behind]
    refine (Reader.reads_tryAccept _ _).bind fun found hfound => .ite hfound ?_
    have hblank : ∀ v ∈ (printBranch first ++ behind (branches.map printBranch)
        (printOtherwise otherwise ++ (units "\x7d" ++ rest))).head?, v.isBlank = false := by
      rw [printBranch, hprint]
      intro v hv
      cases hv
      exact (CodeUnit.isBlank_of_isLetter hletter).1
    have hbranch := (Reader.reads_skipBlanks hblank).bind fun _ _ => reads_branch hs hfirst hends
    refine hbranch.attempt.bind fun next hnext => ?_
    obtain ⟨read, rfl, hread⟩ := hnext
    refine (ih (fun other hmem => h other (List.mem_cons_of_mem _ hmem))
      (Nat.lt_of_succ_lt_succ hrounds)).bind fun others hothers => .pure ?_
    exact ⟨.cons hread hothers.1, hothers.2⟩

theorem print_condition (first : Guarded Command) (branches : List (Guarded Command))
    (otherwise : Command) :
    (Command.condition (first :: branches) otherwise).print ++ rest =
      units "\x7b" ++ (printBranch first ++ behind (branches.map printBranch)
        (printOtherwise otherwise ++ (units "\x7d" ++ rest))) := by
  rw [Command.print, Command.printBranches_eq, List.map_cons, List.append_assoc, List.append_assoc,
    List.append_assoc]
  exact congrArg (units "\x7b" ++ ·) (join_append _ _ _)

/-- Branches that are read compile as they did. -/
theorem compileBranches_read {branches : List (Guarded Command)} {read : List Command.BranchInput}
    (h : List.Forall₂ ReadsAsBranch branches read)
    (hguards : ∀ branch ∈ branches, branch.guard.Printable) :
    ∃ compiled, Command.compileBranches read = .ok compiled ∧
      Command.relabelledBranches (fun _ => Command.noLabel) compiled =
        Command.relabelledBranches (fun _ => Command.noLabel) branches := by
  induction h with
  | nil => exact ⟨[], rfl, rfl⟩
  | @cons branch read branches others hread _ ih =>
    obtain ⟨compiled, hcompiled, hsame⟩ :=
      ih fun other hmem => hguards other (List.mem_cons_of_mem _ hmem)
    obtain ⟨key, source, value⟩ := read
    obtain ⟨rfl, rfl, hvalue⟩ := hread
    refine ⟨⟨branch.guard, value⟩ :: compiled, ?_, ?_⟩
    · rw [Command.compileBranches, (hguards branch List.mem_cons_self).compiled, hcompiled]
      rfl
    · exact congrArg₂ (fun value rest => (⟨branch.guard, value⟩ : Guarded Command) :: rest)
        hvalue hsame

theorem reads_conditionBlock (hs : s.grammar = .standard) {branches : List (Guarded Command)}
    (hne : branches ≠ []) (h : ∀ branch ∈ branches, inner.ReadsBranch branch) {otherwise : Command}
    (hotherwise : otherwise.PrintableOperand) (hreads : inner.ReadsBack otherwise) (rest : Text) :
    (conditionBlock s inner).Reads ((Command.condition branches otherwise).print ++ rest) rest
      (Command.condition branches otherwise).Alike := by
  obtain ⟨first, branches, rfl⟩ := List.exists_cons_of_ne_nil hne
  have hothers : ∀ branch ∈ branches, inner.ReadsBranch branch :=
    fun branch hmem => h branch (List.mem_cons_of_mem _ hmem)
  have hends := (ends_otherwise otherwise rest).behind (branches.map printBranch)
  rw [print_condition, conditionBlock, hs]
  refine (Reader.reads_accept _ _).bind fun _ _ => .bind_here fun start hstart => ?_
  refine (reads_branch hs (h first List.mem_cons_self) hends).bind fun read hread => ?_
  have hrounds : branches.length < start.rest.length + 1 := by
    -- every branch behind the first has a bar of its own ahead
    have hcount := length_behind (branches.map printBranch)
      (printOtherwise otherwise ++ (units "\x7d" ++ rest))
    rw [List.length_map] at hcount
    rw [hstart, List.length_append]
    omega
  refine (reads_moreBranches hs hothers hotherwise hreads hrounds).bind fun more hmore => ?_
  obtain ⟨compiled, hcompiled, hsame⟩ :=
    compileBranches_read (.cons hread hmore.1) fun branch hmem => (h branch hmem).guard
  have hmade : Command.makeCondition (read :: more.1) more.2 =
      .ok (.condition compiled more.2) := by
    rw [Command.makeCondition, if_neg (by simp), hcompiled]
    rfl
  refine (Ends.close rest).reads_skipBlanks.bind fun _ _ =>
    (Reader.reads_accept _ _).bind fun _ _ => ?_
  simp only [hmade]
  exact .pure (congrArg₂ Command.condition hsame hmore.2)

end PromptTemplate.Template
