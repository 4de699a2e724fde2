/-
`NormalForm.lean` -- what the constructors guarantee of the nodes that they make.

`Command.Normal` says of one node what the rest of the program relies on; it says it of
the node's own data and of the shape of the nodes right below, so a whole tree is normal
if every node is (`Command.Everywhere Command.Normal`). Putting commands in a list
together keeps this as long as each can be the child of a sequence (`ofList_normal`). The
checks of a constructor come back as its error, and where its arguments are as the reader
hands them over only two are left: bounds the wrong way round, and a pattern that does
not compile.
-/
import Mathlib.Data.List.Chain
import PromptTemplate.Command.Build
import PromptTemplate.Proofs.Command.Everywhere
import PromptTemplate.Proofs.Number.Written

set_option autoImplicit false

namespace PromptTemplate

namespace Command

/-! ## 1. Normal nodes -/

def IsLiteral : Command → Prop
  | .literal _ => True
  | _ => False

/-- What can be the child of a sequence: no sequence, and no empty literal. -/
def IsChild : Command → Prop
  | .literal text => text ≠ []
  | .sequence _ => False
  | _ => True

/-- Two neighbours that are not both literals. -/
def Apart (a b : Command) : Prop := ¬(a.IsLiteral ∧ b.IsLiteral)

/-- The text at the end of a command, if it ends in one. -/
def lastText? : Command → Option Text
  | .literal text => some text
  | .sequence children =>
    match children.getLast? with
    | some (.literal text) => some text
    | _ => none
  | _ => none

/-- The command does not end in blanks of its own. -/
def Trimmed (command : Command) : Prop :=
  ∀ text ∈ command.lastText?, ∀ u ∈ text.getLast?, u.isBlank = false

/-- A name that is fixed is not empty, and one that is rendered has to be. -/
def NamesSomething : WildcardName Command → Prop
  | .fixed name => name ≠ []
  | .rendered command => ¬command.IsLiteral

/-- The normal form of one node. Operands of a block are trimmed; the name and the inline
variables of a wildcard are none. -/
def Normal : Command → Prop
  | .literal _ | .comment _ => True
  | .sequence children =>
    2 ≤ children.length ∧ (∀ child ∈ children, child.IsChild) ∧ children.IsChain Apart
  | .variant _ options least most _ _ =>
    1 ≤ least ∧ least ≤ most ∧ most ≤ options.length ∧
      ∀ option ∈ options, 0 ≤ option.weight ∧ option.value.Trimmed
  | .wildcard _ name inlined _ => NamesSomething name ∧ ∀ v ∈ inlined, isVariableName v.1 = true
  | .wrap wrapper inner => wrapper.Trimmed ∧ inner.Trimmed
  | .probability _ chance value sampling =>
    0 ≤ chance ∧ chance ≤ 1 ∧ sampling = none ∧ value.Trimmed
  | .condition branches otherwise =>
    branches ≠ [] ∧ otherwise.Trimmed ∧
      ∀ branch ∈ branches, (∀ key ∈ branch.guard.key, isVariableName key = true) ∧
        branch.value.Trimmed
  | .access name fallback => isVariableName name = true ∧ ∀ command ∈ fallback, command.Trimmed
  | .assignment name value _ _ => isVariableName name = true ∧ value.Trimmed

theorem Everywhere.literal (text : Text) : (Command.literal text).Everywhere Normal :=
  .node _ trivial nofun

/-! ## 2. Sequences -/

/-- Joining literals leaves no two of them side by side. -/
theorem isChain_mergeLiterals (commands : List Command) :
    (mergeLiterals commands).IsChain Apart := by
  fun_induction mergeLiterals commands with
  | case1 => exact .nil
  | case2 s rest t merged hmerged ih =>
    rw [hmerged] at ih
    -- the joined literal has the neighbours of the second one
    exact List.isChain_cons.2 ⟨fun next hnext hboth => (List.isChain_cons.1 ih).1 next hnext hboth,
      (List.isChain_cons.1 ih).2⟩
  | case3 s rest hnone ih =>
    refine List.isChain_cons.2 ⟨fun next hnext hboth => ?_, ih⟩
    -- a literal right behind this one would have been joined to it
    cases next with
    | literal t =>
      obtain ⟨merged, hmerged⟩ := List.head?_eq_some_iff.1 hnext
      exact hnone t merged hmerged
    | _ => exact hboth.2
  | case4 other rest hother ih =>
    refine List.isChain_cons.2 ⟨fun next _ hboth => ?_, ih⟩
    cases other with
    | literal s => exact hother s rfl
    | _ => exact hboth.1

/-- Where no two literals stand side by side nothing is joined. -/
theorem mergeLiterals_eq_self {commands : List Command} (h : commands.IsChain Apart) :
    mergeLiterals commands = commands := by
  fun_induction mergeLiterals commands with
  | case1 => rfl
  | case2 s rest t merged hmerged ih =>
    rw [List.isChain_cons] at h
    rw [ih h.2] at hmerged
    exact absurd ⟨trivial, trivial⟩ (h.1 (.literal t) (by rw [hmerged]; rfl))
  | case3 s rest hnone ih => rw [ih (List.isChain_cons.1 h).2]
  | case4 other rest hother ih => rw [ih (List.isChain_cons.1 h).2]

/-- Every command of a list with its literals joined is one of the list or a literal, and
no joined literal is empty unless one of the list is. -/
theorem mem_mergeLiterals {commands : List Command} (h : ∀ command ∈ commands, command.IsChild) :
    ∀ command ∈ mergeLiterals commands, command.IsChild ∧
      (command ∈ commands ∨ command.IsLiteral) := by
  fun_induction mergeLiterals commands with
  | case1 => exact nofun
  | case2 s rest t merged hmerged ih =>
    have hrest := ih fun command hmem => h command (List.mem_cons_of_mem _ hmem)
    rw [hmerged] at hrest
    intro command hmem
    rcases List.mem_cons.1 hmem with rfl | hmem
    · -- the joined literal is no command of the list, but it begins with one
      have hs : s ≠ [] := h (.literal s) List.mem_cons_self
      exact ⟨fun happend => hs (List.append_eq_nil_iff.1 happend).1, .inr trivial⟩
    · obtain ⟨hchild, hin⟩ := hrest command (List.mem_cons_of_mem _ hmem)
      exact ⟨hchild, hin.imp_left (List.mem_cons_of_mem _)⟩
  | case3 s rest hnone ih =>
    intro command hmem
    rcases List.mem_cons.1 hmem with rfl | hmem
    · exact ⟨h _ List.mem_cons_self, .inl List.mem_cons_self⟩
    · obtain ⟨hchild, hin⟩ :=
        ih (fun command hmem => h command (List.mem_cons_of_mem _ hmem)) command hmem
      exact ⟨hchild, hin.imp_left (List.mem_cons_of_mem _)⟩
  | case4 other rest hother ih =>
    intro command hmem
    rcases List.mem_cons.1 hmem with rfl | hmem
    · exact ⟨h _ List.mem_cons_self, .inl List.mem_cons_self⟩
    · obtain ⟨hchild, hin⟩ :=
        ih (fun command hmem => h command (List.mem_cons_of_mem _ hmem)) command hmem
      exact ⟨hchild, hin.imp_left (List.mem_cons_of_mem _)⟩

theorem mergeLiterals_ne_nil {commands : List Command} (h : commands ≠ []) :
    mergeLiterals commands ≠ [] := by
  fun_cases mergeLiterals commands with
  | case1 => exact h
  | case2 => exact List.cons_ne_nil _ _
  | case3 => exact List.cons_ne_nil _ _
  | case4 => exact List.cons_ne_nil _ _

/-- Commands put together are normal if each can be a child. -/
theorem ofList_normal {commands : List Command} (hchild : ∀ command ∈ commands, command.IsChild)
    (hnormal : ∀ command ∈ commands, command.Everywhere Normal) :
    (ofList commands).Everywhere Normal := by
  have hmem := mem_mergeLiterals hchild
  have hmerged : ∀ command ∈ mergeLiterals commands, command.Everywhere Normal := by
    intro command hin
    rcases (hmem command hin).2 with hin | hliteral
    · exact hnormal command hin
    · cases command with
      | literal text => exact .literal text
      | _ => exact hliteral.elim
  have hchain := isChain_mergeLiterals commands
  unfold ofList
  split
  · exact .literal []
  · next command heq => exact hmerged command (by rw [heq]; exact List.mem_singleton_self _)
  · next merged hnil hsingle =>
    refine .node _ ⟨?_, fun child hin => (hmem child hin).1, hchain⟩ hmerged
    rcases hm : mergeLiterals commands with _ | ⟨first, _ | ⟨second, rest⟩⟩
    -- no command and one command were cases of their own
    · exact (hnil hm).elim
    · exact (hsingle first hm).elim
    · simp

/-- Commands put together, if there are any, are not the empty literal. -/
theorem ofList_ne_empty {commands : List Command} (hne : commands ≠ [])
    (hchild : ∀ command ∈ commands, command.IsChild) : ofList commands ≠ .literal [] := by
  unfold ofList
  split
  · next heq => exact absurd heq (mergeLiterals_ne_nil hne)
  · next command heq =>
    have hone := (mem_mergeLiterals hchild command (by rw [heq]; exact List.mem_singleton_self _)).1
    exact fun hempty => by rw [hempty] at hone; exact hone rfl
  · exact fun hempty => by cases hempty

section Joined

variable {p : Command → Prop} (hliteral : ∀ text, p (.literal text))
  (hsequence : ∀ children, p (.sequence children))
include hliteral

/-- Joining literals makes no nodes but literals. -/
theorem everywhere_mergeLiterals {commands : List Command}
    (h : ∀ command ∈ commands, command.Everywhere p) :
    ∀ command ∈ mergeLiterals commands, command.Everywhere p := by
  -- a joined literal is new, so the property has to hold of literals of any text
  have hjoined (text : Text) : (Command.literal text).Everywhere p :=
    .node _ (hliteral text) (List.forall_mem_nil _)
  fun_induction mergeLiterals commands with
  | case1 => exact fun _ hmem => by cases hmem
  | case2 s rest t merged hmerged ih =>
    have hrest := ih fun command hmem => h command (List.mem_cons_of_mem _ hmem)
    rw [hmerged] at hrest
    exact List.forall_mem_cons.2 ⟨hjoined _,
      fun command hmem => hrest command (List.mem_cons_of_mem _ hmem)⟩
  | case3 s rest hnone ih =>
    exact List.forall_mem_cons.2 ⟨hjoined s,
      ih fun command hmem => h command (List.mem_cons_of_mem _ hmem)⟩
  | case4 other rest hother ih =>
    exact List.forall_mem_cons.2 ⟨h other List.mem_cons_self,
      ih fun command hmem => h command (List.mem_cons_of_mem _ hmem)⟩

include hsequence

/-- Putting commands together makes no nodes but literals and a sequence. -/
theorem everywhere_ofList {commands : List Command}
    (h : ∀ command ∈ commands, command.Everywhere p) :
    (ofList commands).Everywhere p := by
  have hmerged := everywhere_mergeLiterals hliteral h
  unfold ofList
  split
  · exact .node _ (hliteral []) (List.forall_mem_nil _)
  · next command heq =>
    rw [heq] at hmerged
    exact hmerged command (List.mem_singleton_self _)
  · exact .node _ (hsequence _) hmerged

end Joined

/-! ## 3. Numbers and bounds -/

/-- The settings of a variant as the reader hands them over: bounds that are natural
numbers. -/
def VariantSettings.ofBounds (least most : Option Nat) (separator : Option Text)
    (sampling : Option Sampling) : VariantSettings :=
  ⟨least.map Number.ofNat, most.map Number.ofNat, separator, sampling⟩

theorem checkBound_ofNat (upper : Bool) (bound : Option Nat) :
    checkBound upper (bound.map Number.ofNat) = .ok bound := by
  cases bound with
  | none => rfl
  | some n => rw [Option.map_some, checkBound, Number.toNat?_ofNat]

/-- Options whose weights are finite and not negative pass the check. -/
theorem checkOptions_ok {options : List (Option Number × Command)}
    (h : ∀ option ∈ options, ∀ weight ∈ option.1, ∃ q : Rat, 0 ≤ q ∧ weight = .finite q) :
    ∃ checked : List (Weighted Command), checkOptions options = .ok checked ∧
      checked.map (·.value) = options.map (·.2) ∧ ∀ option ∈ checked, 0 ≤ option.weight := by
  induction options with
  | nil => exact ⟨[], rfl, rfl, nofun⟩
  -- options without a weight weigh one
  | cons option options ih =>
    obtain ⟨checked, hchecked, hvalues, hweights⟩ :=
      ih fun other hmem => h other (List.mem_cons_of_mem _ hmem)
    have hfirst : ∃ q : Rat, 0 ≤ q ∧ option.1.getD 1 = .finite q := by
      cases hw : option.1 with
      | none => exact ⟨1, by decide, rfl⟩
      | some weight => exact h option List.mem_cons_self weight hw
    obtain ⟨q, hq, hweight⟩ := hfirst
    have hcheck : checkWeight (option.1.getD 1) = .ok q := by
      rw [hweight, checkWeight, if_neg (Rat.not_lt.2 hq)]
    refine ⟨⟨q, option.2⟩ :: checked, ?_, ?_, ?_⟩
    · rw [checkOptions, hcheck, hchecked]
      rfl
    · rw [List.map_cons, List.map_cons, hvalues]
    · exact List.forall_mem_cons.2 ⟨hq, hweights⟩

/-- Checking options keeps their values and their order, and gives each its weight, one where
none was given. -/
theorem forall₂_of_checkOptions {options : List (Option Number × Command)} :
    ∀ {checked : List (Weighted Command)}, checkOptions options = .ok checked →
      List.Forall₂ (fun option made => checkWeight (option.1.getD 1) = .ok made.weight ∧
        made.value = option.2) options checked := by
  induction options with
  | nil =>
    intro checked h
    cases h
    exact .nil
  | cons option options ih =>
    intro checked h
    rw [checkOptions] at h
    cases hweight : checkWeight (option.1.getD 1) with
    | error error => rw [hweight] at h; cases h
    | ok weight =>
      rw [hweight] at h
      cases hrest : checkOptions options with
      | error error => rw [hrest] at h; cases h
      | ok rest =>
        rw [hrest] at h
        cases h
        exact .cons ⟨hweight, rfl⟩ (ih hrest)

/-- An option that was checked is one of those that were given, with its weight. -/
theorem exists_of_mem_checkOptions {options : List (Option Number × Command)}
    {checked : List (Weighted Command)} (h : checkOptions options = .ok checked)
    {made : Weighted Command} (hmem : made ∈ checked) :
    ∃ option ∈ options, checkWeight (option.1.getD 1) = .ok made.weight ∧
      made.value = option.2 := by
  have hoptions := forall₂_of_checkOptions h
  clear h
  induction hoptions with
  | nil => cases hmem
  | cons hfirst _ ih =>
    rcases List.mem_cons.1 hmem with rfl | hmem
    · exact ⟨_, List.mem_cons_self, hfirst⟩
    · obtain ⟨option, hoption, hmade⟩ := ih hmem
      exact ⟨option, List.mem_cons_of_mem _ hoption, hmade⟩

theorem map_value_of_checkOptions {options : List (Option Number × Command)}
    {checked : List (Weighted Command)} (h : checkOptions options = .ok checked) :
    checked.map (·.value) = options.map (·.2) := by
  have hoptions := forall₂_of_checkOptions h
  clear h
  induction hoptions with
  | nil => rfl
  | cons hfirst _ ih => rw [List.map_cons, List.map_cons, hfirst.2, ih]

/-- A variant that is made has the options that it was made from. -/
theorem exists_of_makeVariant {label : Label} {options : List (Option Number × Command)}
    {settings : VariantSettings} {command : Command}
    (h : makeVariant label options settings = .ok command) :
    ∃ checked least most, checkOptions options = .ok checked ∧
      command = .variant label checked least most (settings.separator.getD defaultSeparator)
        settings.sampling := by
  unfold makeVariant at h
  -- whatever bounds are declared, they are cut to the number of options before they are compared
  cases hchecked : checkOptions options with
  | error error => rw [hchecked] at h; cases h
  | ok checked =>
    rw [hchecked] at h
    cases hleast : checkBound false settings.least with
    | error error => rw [hleast] at h; cases h
    | ok least =>
      rw [hleast] at h
      cases hmost : checkBound true settings.most with
      | error error => rw [hmost] at h; cases h
      | ok most =>
        rw [hmost] at h
        dsimp only [bind, Except.bind] at h
        generalize least.getD 1 = declaredLeast at h
        generalize most.getD _ = declaredMost at h
        split at h
        · cases h
        · cases h
          exact ⟨checked, _, _, rfl, rfl⟩

/-! ## 4. What the constructors make -/

/-- What can stand among others: normal, and the child of a sequence. -/
structure IsPiece (command : Command) : Prop where
  child : command.IsChild
  normal : command.Everywhere Normal

/-- What can stand in a block: normal, and trimmed. -/
structure IsOperand (command : Command) : Prop where
  trimmed : command.Trimmed
  normal : command.Everywhere Normal

/-- A constructor was content with what it was given, or refused bounds the wrong way
round. -/
def Makes (made : Except BuildError Command) : Prop :=
  match made with
  | .ok command => command.IsPiece
  | .error error => ∃ least most, most < least ∧ error = .invertedBounds least most

/-- The bounds of a variant lie between one and the number of its options, however they
are declared. -/
theorem makeVariant_makes (label : Label) {options : List (Option Number × Command)}
    (hne : options ≠ [])
    (hweights : ∀ option ∈ options, ∀ weight ∈ option.1, ∃ q : Rat, 0 ≤ q ∧ weight = .finite q)
    (hvalues : ∀ option ∈ options, option.2.IsOperand) (least most : Option Nat)
    (separator : Option Text) (sampling : Option Sampling) :
    Makes (makeVariant label options (.ofBounds least most separator sampling)) := by
  obtain ⟨checked, hchecked, hsame, hnonneg⟩ := checkOptions_ok hweights
  have hlength : checked.length = options.length := by
    rw [← List.length_map (·.value), hsame, List.length_map]
  have hcount : 0 < checked.length := by
    rw [hlength]
    exact List.length_pos_iff.2 hne
  have hoperand : ∀ option ∈ checked, option.value.IsOperand := by
    intro option hmem
    have hin : option.value ∈ options.map (·.2) := by
      rw [← hsame]
      exact List.mem_map_of_mem hmem
    obtain ⟨given, hgiven, heq⟩ := List.mem_map.1 hin
    rw [← heq]
    exact hvalues given hgiven
  simp only [makeVariant, VariantSettings.ofBounds, hchecked, checkBound_ofNat, bind, Except.bind]
  -- the bounds are clamped to the options, so only their order needs an argument
  generalize least.getD 1 = declaredLeast
  generalize most.getD _ = declaredMost
  by_cases hinverted : most.isSome = true ∧ declaredMost < declaredLeast
  · rw [if_pos hinverted]
    exact ⟨_, _, hinverted.2, rfl⟩
  · rw [if_neg hinverted]
    refine ⟨trivial,
      .node _ ⟨by omega, by omega, by omega, fun option hmem => ?_⟩ fun part hmem => ?_⟩
    · exact ⟨hnonneg option hmem, (hoperand option hmem).trimmed⟩
    · obtain ⟨option, hoption, rfl⟩ := List.mem_map.1 hmem
      exact (hoperand option hoption).normal

/-- A chance that is not negative is clamped, and infinity is certain. -/
theorem makeProbability_makes (label : Label) {chance : Number} (hchance : chance.Nonneg)
    {value : Command} (hvalue : value.IsOperand) :
    Makes (makeProbability label chance value none) := by
  have hnode : ∀ q : Rat, 0 ≤ q → q ≤ 1 → (Command.probability label q value none).IsPiece :=
    fun q hzero hone => ⟨trivial,
      .node _ ⟨hzero, hone, rfl, hvalue.trimmed⟩ (List.forall_mem_singleton.2 hvalue.normal)⟩
  rcases hchance with rfl | ⟨q, hq, rfl⟩
  · exact hnode 1 (by decide) (by decide)
  · rw [makeProbability, if_neg (Rat.not_lt.2 hq)]
    by_cases hone : 1 < q
    · rw [if_pos hone]
      exact hnode 1 (by decide) (by decide)
    · rw [if_neg hone]
      exact hnode q hq (Rat.not_lt.1 hone)

theorem makeAccess_makes {name : Text} (hname : isVariableName name = true)
    {fallback : Option Command} (hfallback : ∀ command ∈ fallback, command.IsOperand) :
    Makes (makeAccess name fallback) := by
  rw [makeAccess, if_pos hname]
  refine ⟨trivial, .node _ ⟨hname, fun command hmem => (hfallback command hmem).trimmed⟩
    fun part hmem => ?_⟩
  exact (hfallback part (Option.mem_toList.1 hmem)).normal

theorem makeAssignment_makes {name : Text} (hname : isVariableName name = true) {value : Command}
    (hvalue : value.IsOperand) (overwrite immediate : Bool) :
    Makes (makeAssignment name value overwrite immediate) := by
  rw [makeAssignment, if_pos hname]
  exact ⟨trivial, .node _ ⟨hname, hvalue.trimmed⟩ (List.forall_mem_singleton.2 hvalue.normal)⟩

/-- A wildcard by the name that the parts of a path make. A name that is a literal
becomes a fixed one. -/
theorem makeWildcard_makes (label : Label) {path : List Command} (hne : path ≠ [])
    (hpath : ∀ part ∈ path, part.IsPiece) {inlined : List (Text × Command)}
    (hinlined : ∀ v ∈ inlined, isVariableName v.1 = true ∧ v.2.Everywhere Normal)
    (sampling : Option Sampling) :
    Makes (makeWildcard label (.rendered (.ofList path)) inlined sampling) := by
  have hnormal := ofList_normal (fun part hmem => (hpath part hmem).child) fun part hmem =>
    (hpath part hmem).normal
  have hempty := ofList_ne_empty hne fun part hmem => (hpath part hmem).child
  have hnode : ∀ name : WildcardName Command, NamesSomething name →
      (∀ part ∈ name.parts, part.Everywhere Normal) →
      (Command.wildcard label name inlined sampling).IsPiece := by
    refine fun name hname hparts =>
      ⟨trivial, .node _ ⟨hname, fun v hmem => (hinlined v hmem).1⟩ fun part hmem => ?_⟩
    rcases List.mem_append.1 hmem with hmem | hmem
    · exact hparts part hmem
    · obtain ⟨v, hv, rfl⟩ := List.mem_map.1 hmem
      exact (hinlined v hv).2
  unfold makeWildcard
  cases hname : Command.ofList path with
  | literal text =>
    rw [hname] at hempty
    cases text with
    | nil => exact absurd rfl hempty
    | cons u text => exact hnode _ (List.cons_ne_nil u text) nofun
  | _ =>
    -- any other command stays a rendered name, and is not a literal
    rw [hname] at hnormal
    exact hnode (.rendered _) id (List.forall_mem_singleton.2 hnormal)

/-- Compiling either stops at a pattern that is none, or keeps keys and values. -/
theorem compileBranches_ok (branches : List BranchInput) :
    (∃ source fault, compileBranches branches = .error (.pattern source fault)) ∨
      ∃ compiled : List (Guarded Command), compileBranches branches = .ok compiled ∧
        compiled.map (fun branch => (branch.guard.key, branch.value)) =
          branches.map fun branch => (branch.key, branch.value) := by
  -- expressions are the one thing that can be refused here; the keys come through unchanged
  induction branches with
  | nil => exact .inr ⟨[], rfl, rfl⟩
  | cons branch branches ih =>
    rw [compileBranches]
    cases hread : Pattern.read false branch.pattern with
    | error fault => exact .inl ⟨_, _, rfl⟩
    | ok pattern =>
      rcases ih with ⟨source, fault, hrest⟩ | ⟨compiled, hrest, hsame⟩
      · rw [hrest]
        exact .inl ⟨source, fault, rfl⟩
      · rw [hrest]
        refine .inr ⟨_, rfl, ?_⟩
        rw [List.map_cons, List.map_cons, hsame]

/-- A condition of at least one branch fails only with a pattern that does not compile. -/
theorem makeCondition_makes {branches : List BranchInput} (hne : branches ≠ [])
    {otherwise : Command}
    (hbranches : ∀ branch ∈ branches, (∀ key ∈ branch.key, isVariableName key = true) ∧
      branch.value.IsOperand)
    (hotherwise : otherwise.IsOperand) :
    (∃ source fault, makeCondition branches otherwise = .error (.pattern source fault)) ∨
      ∃ command, makeCondition branches otherwise = .ok command ∧ command.IsPiece := by
  have hnonempty : ¬branches.isEmpty = true := by simpa using hne
  rw [makeCondition, if_neg hnonempty]
  rcases compileBranches_ok branches with ⟨source, fault, herror⟩ | ⟨compiled, hcompiled, hsame⟩
  · rw [herror]
    exact .inl ⟨source, fault, rfl⟩
  · have hall : ∀ branch ∈ compiled, (∀ key ∈ branch.guard.key, isVariableName key = true) ∧
        branch.value.IsOperand := by
      intro branch hmem
      have hin : (branch.guard.key, branch.value) ∈ branches.map fun branch =>
          (branch.key, branch.value) := by
        rw [← hsame]
        exact List.mem_map_of_mem hmem
      obtain ⟨given, hgiven, heq⟩ := List.mem_map.1 hin
      obtain ⟨hkey, hvalue⟩ := Prod.mk.injEq _ _ _ _ ▸ heq
      rw [← hkey, ← hvalue]
      exact hbranches given hgiven
    have hcompiledNe : compiled ≠ [] := by
      rintro rfl
      exact hne (List.map_eq_nil_iff.1 hsame.symm)
    rw [hcompiled]
    refine .inr ⟨_, rfl, trivial, .node _ ⟨hcompiledNe, hotherwise.trimmed, fun branch hmem => ?_⟩
      fun part hmem => ?_⟩
    · exact ⟨(hall branch hmem).1, (hall branch hmem).2.trimmed⟩
    · rcases List.mem_append.1 hmem with hmem | hmem
      · obtain ⟨branch, hbranch, rfl⟩ := List.mem_map.1 hmem
        exact (hall branch hbranch).2.normal
      · rw [List.mem_singleton.1 hmem]
        exact hotherwise.normal

/-! ## 5. What was made

The parts that a constructor is given are the parts of the node that it makes. -/

theorem exists_of_makeProbability {label : Label} {chance : Number} {value : Command}
    {sampling : Option Sampling} {command : Command}
    (h : makeProbability label chance value sampling = .ok command) :
    ∃ q, command = .probability label q value sampling := by
  unfold makeProbability at h
  split at h <;> cases h <;> exact ⟨_, rfl⟩

theorem exists_of_makeCondition {branches : List BranchInput} {otherwise command : Command}
    (h : makeCondition branches otherwise = .ok command) :
    ∃ compiled : List (Guarded Command), compiled.map (·.value) = branches.map (·.value) ∧
      command = .condition compiled otherwise := by
  unfold makeCondition at h
  split at h
  · cases h
  · rcases compileBranches_ok branches with ⟨source, fault, herror⟩ | ⟨compiled, hcompiled, hsame⟩
    · rw [herror] at h
      cases h
    · rw [hcompiled] at h
      cases h
      have hvalues := congrArg (List.map Prod.snd) hsame
      exact ⟨compiled, by simpa only [List.map_map, Function.comp_def] using hvalues, rfl⟩

theorem eq_of_makeAccess {name : Text} {fallback : Option Command} {command : Command}
    (h : makeAccess name fallback = .ok command) : command = .access name fallback := by
  unfold makeAccess at h
  split at h
  · cases h
    rfl
  · cases h

theorem eq_of_makeAssignment {name : Text} {value : Command} {overwrite immediate : Bool}
    {command : Command} (h : makeAssignment name value overwrite immediate = .ok command) :
    command = .assignment name value overwrite immediate := by
  unfold makeAssignment at h
  split at h
  · cases h
    rfl
  · cases h

/-- A name that is a literal becomes a fixed one. -/
theorem exists_of_makeWildcard {label : Label} {name : Command} {inlined : List (Text × Command)}
    {sampling : Option Sampling} {command : Command}
    (h : makeWildcard label (.rendered name) inlined sampling = .ok command) :
    ∃ plain, command = .wildcard label plain inlined sampling ∧
      (plain = .rendered name ∨ ∃ text, name = .literal text ∧ plain = .fixed text) := by
  unfold makeWildcard at h
  cases name with
  | literal text =>
    cases text with
    | nil => cases h
    | cons u text =>
      cases h
      exact ⟨_, rfl, .inr ⟨_, rfl, rfl⟩⟩
  | _ =>
    cases h
    exact ⟨_, rfl, .inl rfl⟩

end Command

end PromptTemplate
