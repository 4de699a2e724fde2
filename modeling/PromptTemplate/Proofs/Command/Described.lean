/-
`Described.lean` -- the line of a tree tells the tree.

Trees are compared by their lines, so two trees of one line have to be one tree. What stands between
quotes may hold anything that the lines are made of, and names stand without quotes, so a line can
not be taken apart by looking for a separator. What carries the argument is that a line ends where
it says itself, whatever follows: if two trees are told apart from what follows them
(`Command.ToldApart`), so are the nodes that have them as parts, one lemma for each kind of node. A
reading of a variable is the one kind that could go on, by a further unit of its name, a default or
an operator; what can follow a line begins with none of these (`Command.EndsLine`). The main
statement is `Command.describe_eq_iff`.

Wildcards, chances and conditions are left out: the name of a wildcard and the expression of a
condition stand in a line as they are, with separators and all.
-/
import Mathlib.Algebra.GroupWithZero.Nat
import PromptTemplate.Command.Describe
import PromptTemplate.Proofs.Command.NormalForm
import PromptTemplate.Proofs.Command.Paired
import PromptTemplate.Proofs.Command.Printing
import PromptTemplate.Proofs.Json.Strings
import PromptTemplate.Proofs.Text.Units

set_option autoImplicit false

namespace PromptTemplate

/-! ## 1. Runs of units -/

/-- What consists of units of a class ends where the first other unit stands. -/
theorem Text.append_inj_of_class {test : CodeUnit → Bool} {s t rest more : Text}
    (hs : ∀ u ∈ s, test u = true) (ht : ∀ u ∈ t, test u = true)
    (hrest : ∀ u ∈ rest.head?, test u = false) (hmore : ∀ u ∈ more.head?, test u = false)
    (h : s ++ rest = t ++ more) : s = t ∧ rest = more := by
  obtain ⟨htake, hdrop⟩ := takeWhile_append_stop hs hrest
  obtain ⟨htake', hdrop'⟩ := takeWhile_append_stop ht hmore
  constructor
  · rw [← htake, h, htake']
  · rw [← hdrop, h, hdrop']

/-- A natural number ends at a unit that is no digit. -/
theorem Text.ofNat_append_inj {m n : Nat} {u : CodeUnit} (hu : u.isDigit = false) {rest more : Text}
    (h : Text.ofNat m ++ u :: rest = Text.ofNat n ++ u :: more) : m = n ∧ rest = more := by
  have hstop (tail : Text) : ∀ v ∈ (u :: tail).head?, v.isDigit = false := by
    intro v hv
    cases hv
    exact hu
  obtain ⟨hdigits, htail⟩ :=
    append_inj_of_class (Text.ofNat_digits m).2 (Text.ofNat_digits n).2 (hstop rest) (hstop more) h
  refine ⟨?_, (List.cons.inj htail).2⟩
  rw [← Text.digitsValue_ofNat m, hdigits, Text.digitsValue_ofNat]

/-- A natural number that is exact is written with its digits, zero too. -/
theorem Decimal.ofRat_natural {n : Nat} (h : n < Binary64.exactUpTo) :
    Decimal.ofRat n = Text.ofNat n := by
  rcases Nat.eq_zero_or_pos n with rfl | hpos
  · rfl
  · exact Decimal.ofRat_natCast hpos h

namespace Command

/-! ## 2. What follows a line -/

/-- A unit that goes on no line: it is no part of a name, and it begins neither a default nor an
operator. -/
def EndsLine (u : CodeUnit) : Bool := !(continuesVariable u || u == 58 || u == 61 || u == 63)

/-- A text that a line does not go on with. -/
def FollowsLine (rest : Text) : Prop := ∀ u ∈ rest.head?, EndsLine u = true

/-- Nothing can follow a line. -/
theorem FollowsLine.nil : FollowsLine [] := nofun

/-- A unit that ends a line can follow it, with anything behind. -/
theorem FollowsLine.cons {u : CodeUnit} (hu : EndsLine u = true) (rest : Text) :
    FollowsLine (u :: rest) := by
  intro v hv
  cases hv
  exact hu

/-- No name goes on where a line ends. -/
theorem FollowsLine.noName {rest : Text} (h : FollowsLine rest) :
    ∀ u ∈ rest.head?, continuesVariable u = false := by
  intro u hu
  have hends := h u hu
  simp only [EndsLine, Bool.not_eq_true', Bool.or_eq_false_iff] at hends
  exact hends.1.1.1

/-- A unit that does not end a line does not follow it. -/
theorem FollowsLine.ne {u : CodeUnit} (hu : EndsLine u = false) (tail : Text) {rest : Text}
    (h : FollowsLine rest) : rest ≠ u :: tail := by
  rintro rfl
  have hends := h u rfl
  rw [hu] at hends
  cases hends

section Pieces

variable {α β : Type}

/-- Two written things are told apart by what is read in front, whatever follows them: if the texts
are the same, so is what the things stand for, and so is what follows. -/
def ToldApart (write : α → Text) (core : α → β) (a b : α) : Prop :=
  ∀ rest more, FollowsLine rest → FollowsLine more → write a ++ rest = write b ++ more →
    core a = core b ∧ rest = more

/-- Further pieces, each behind a separator, and what follows them. -/
def further (separator : Text) (pieces : List Text) (tail : Text) : Text :=
  pieces.foldr (fun piece rest => separator ++ (piece ++ rest)) tail

/-- Pieces that are joined are the first one and then the further ones. -/
theorem join_append_further (separator piece : Text) (pieces : List Text) (tail : Text) :
    Text.join separator (piece :: pieces) ++ tail = piece ++ further separator pieces tail := by
  induction pieces generalizing piece with
  | nil => rfl
  | cons next pieces ih =>
    rw [Text.join, List.append_assoc, List.append_assoc, ih, further, further, List.foldr_cons]
    exact nofun

variable {write : α → Text} {core : α → β} {mark stop : CodeUnit} {separator : Text}
  (hmark : EndsLine mark = true) (hstop : EndsLine stop = true) (hne : mark ≠ stop)
  {as bs : List α} (htold : ∀ a ∈ as, ∀ b ∈ bs, ToldApart write core a b) {rest more : Text}

include hmark hstop

/-- Further pieces begin with the separator, or there is none and the list is closed. -/
theorem followsLine_further (pieces : List Text) (rest : Text) :
    FollowsLine (further (mark :: separator) pieces (stop :: rest)) := by
  cases pieces with
  | nil => exact .cons hstop rest
  | cons piece pieces => exact .cons hmark _

include hne htold

/-- Further pieces are as many on both sides: a separator does not begin like what closes the list.
-/
theorem further_inj
    (h : further (mark :: separator) (as.map write) (stop :: rest) =
      further (mark :: separator) (bs.map write) (stop :: more)) :
    as.map core = bs.map core ∧ rest = more := by
  -- a list that ends early would stop where the other goes on, and the two marks differ
  induction as generalizing bs with
  | nil =>
    cases bs with
    | nil => exact ⟨rfl, (List.cons.inj h).2⟩
    | cons b bs => exact absurd (List.cons.inj h).1.symm hne
  | cons a as ih =>
    cases bs with
    | nil => exact absurd (List.cons.inj h).1 hne
    | cons b bs =>
      have hpiece := List.append_cancel_left (List.cons.inj h).2
      obtain ⟨hcore, htail⟩ := htold a List.mem_cons_self b List.mem_cons_self _ _
        (followsLine_further hmark hstop _ _) (followsLine_further hmark hstop _ _) hpiece
      obtain ⟨hcores, hrest⟩ := ih (fun a ha b hb =>
        htold a (List.mem_cons_of_mem _ ha) b (List.mem_cons_of_mem _ hb)) htail
      exact ⟨by rw [List.map_cons, List.map_cons, hcore, hcores], hrest⟩

variable (mark stop separator) in
/-- **Lists are told by their members**, up to what closes them, if no member begins like that. -/
theorem join_append_inj
    (hbegins : ∀ a ∈ as ++ bs, ∀ rest tail : Text, write a ++ rest ≠ stop :: tail)
    (h : Text.join (mark :: separator) (as.map write) ++
      stop :: rest = Text.join (mark :: separator) (bs.map write) ++ stop :: more) :
    as.map core = bs.map core ∧ rest = more := by
  cases as with
  | nil =>
    cases bs with
    | nil => exact ⟨rfl, (List.cons.inj h).2⟩
    | cons b bs =>
      rw [List.map_cons, join_append_further] at h
      exact absurd h.symm (hbegins b List.mem_cons_self _ _)
  | cons a as =>
    cases bs with
    | nil =>
      rw [List.map_cons, join_append_further] at h
      exact absurd h (hbegins a List.mem_cons_self _ _)
    | cons b bs =>
      rw [List.map_cons, List.map_cons, join_append_further, join_append_further] at h
      -- a separator more on both sides makes the first piece one of the further ones
      have hfurther : further (mark :: separator) ((a :: as).map write) (stop :: rest) =
          further (mark :: separator) ((b :: bs).map write) (stop :: more) :=
        congrArg (fun tail => mark :: (separator ++ tail)) h
      exact further_inj hmark hstop hne htold hfurther

end Pieces

/-! ## 3. Trees by their lines -/

/-- Nodes whose own data can be read off a line: names that are names, and weights that are natural
numbers and exact. -/
def Legible : Command → Prop
  | .literal _ | .comment _ | .sequence _ | .wrap _ _ => True
  | .variant _ options _ _ _ _ =>
    ∀ option ∈ options, ∃ n : Nat, n < Binary64.exactUpTo ∧ option.weight = n
  | .access name _ | .assignment name _ _ _ => isVariableName name = true
  | .wildcard _ _ _ _ | .probability _ _ _ _ | .condition _ _ => False

/-- The unit that the line of a node begins with: a quote, the first letter of the kind, or a
dollar. -/
def lead : Command → CodeUnit
  | .literal _ => 34
  | .comment _ | .probability _ _ _ _ => 99
  | .sequence _ => 115
  | .variant _ _ _ _ _ _ => 118
  | .wildcard _ _ _ _ | .wrap _ _ => 119
  | .condition _ _ => 105
  | .access _ _ | .assignment _ _ _ _ => 36

/-- The line of a node begins with its leading unit. -/
theorem describe_lead (command : Command) : ∃ tail, command.describe = command.lead :: tail := by
  cases command with
  | wildcard label name inlined sampling =>
    cases inlined <;> exact ⟨_, by simp only [describe]; rfl⟩
  | access name fallback => cases fallback <;> exact ⟨_, by rw [describe]; rfl⟩
  | _ => exact ⟨_, by rw [describe]; rfl⟩

/-- There are seven such units. -/
theorem lead_mem (command : Command) : command.lead ∈ [34, 99, 115, 118, 119, 105, 36] := by
  cases command <;> simp [lead]

/-- What no line begins with: what closes a list, and the mark of an operator. -/
theorem describe_append_ne {u : CodeUnit} (hu : u ∉ [34, 99, 115, 118, 119, 105, 36])
    (command : Command) (rest tail : Text) : command.describe ++ rest ≠ u :: tail := by
  intro h
  obtain ⟨line, hline⟩ := describe_lead command
  rw [hline] at h
  exact hu ((List.cons.inj h).1 ▸ lead_mem command)

/-- Lines of one beginning are lines of nodes with one lead. -/
theorem lead_eq_of_append {s t : Command} {rest more : Text}
    (h : s.describe ++ rest = t.describe ++ more) :
    s.lead = t.lead := by
  obtain ⟨line, hline⟩ := describe_lead s
  obtain ⟨other, hother⟩ := describe_lead t
  rw [hline, hother] at h
  exact (List.cons.inj h).1

/-- The lines of several nodes are their lines. -/
theorem describeAll_eq (commands : List Command) :
    describeAll commands = commands.map describe := by
  induction commands with
  | nil => rfl
  | cons command rest ih => rw [describeAll, ih, List.map_cons]

/-- An option with its weight. -/
def describeOption (option : Weighted Command) : Text :=
  Decimal.ofRat option.weight ++ units "::" ++ describe option.value

/-- The lines of options are theirs. -/
theorem describeOptions_eq (options : List (Weighted Command)) :
    describeOptions options = options.map describeOption := by
  induction options with
  | nil => rfl
  | cons option rest ih => rw [describeOptions, ih, List.map_cons, describeOption]

/-! ## 4. Labels

The other way round holds of all trees, wildcards, chances and conditions too. -/

section Labels

variable {f : Label → Label}

mutual

/-- Labels are no part of a line: a tree has the same line under all of them. -/
theorem describe_relabelled : ∀ command : Command, (command.relabelled f).describe =
    command.describe
  | .literal text | .comment text => by rw [relabelled]
  | .sequence children => by rw [relabelled, describe, describe, describeAll_relabelled]
  | .variant label options least most separator sampling => by
    rw [relabelled, describe, describe, describeOptions_relabelled]
  | .wildcard label name inlined sampling => by
    -- inline variables are written only where there are any, so the empty
    -- list is a case of its own
    cases inlined with
    | nil => simp only [relabelled, describe, describeName_relabelled, relabelledVariables]
    | cons v inlined =>
      have hvariables := describeVariables_relabelled (v :: inlined)
      simp only [relabelledVariables] at hvariables
      simp only [relabelled, describe, describeName_relabelled, relabelledVariables, hvariables]
  | .wrap wrapper inner => by
    rw [relabelled, describe, describe, describe_relabelled wrapper, describe_relabelled inner]
  | .probability label chance value sampling => by
    rw [relabelled, describe, describe, describe_relabelled value]
  | .condition branches otherwise => by
    rw [relabelled, describe, describe, describeBranches_relabelled, describe_relabelled otherwise]
  | .access name none => by rw [relabelled]
  | .access name (some value) => by
    simp only [relabelled, describe, describe_relabelled value]
  | .assignment name value overwrite immediate => by
    rw [relabelled, describe, describe, describe_relabelled value]

/-- The line of a name shows no label. -/
theorem describeName_relabelled : ∀ name : WildcardName Command,
    describeName (relabelledName f name) = describeName name
  | .fixed _ => rfl
  | .rendered command => describe_relabelled command

/-- Neither do those of several nodes. -/
theorem describeAll_relabelled : ∀ commands : List Command,
    describeAll (relabelledAll f commands) = describeAll commands
  | [] => rfl
  | command :: rest => by
    rw [relabelledAll, describeAll, describeAll, describe_relabelled command,
      describeAll_relabelled rest]

/-- Nor those of options. -/
theorem describeOptions_relabelled : ∀ options : List (Weighted Command),
    describeOptions (relabelledOptions f options) = describeOptions options
  | [] => rfl
  | ⟨weight, value⟩ :: rest => by
    rw [relabelledOptions, describeOptions, describeOptions, describe_relabelled value,
      describeOptions_relabelled rest]

/-- Nor those of inline variables. -/
theorem describeVariables_relabelled : ∀ inlined : List (Text × Command),
    describeVariables (relabelledVariables f inlined) = describeVariables inlined
  | [] => rfl
  | (name, value) :: rest => by
    rw [relabelledVariables, describeVariables, describeVariables, describe_relabelled value,
      describeVariables_relabelled rest]

/-- Nor those of branches. -/
theorem describeBranches_relabelled : ∀ branches : List (Guarded Command),
    describeBranches (relabelledBranches f branches) = describeBranches branches
  | [] => rfl
  | ⟨guard, value⟩ :: rest => by
    rw [relabelledBranches, describeBranches, describeBranches, describe_relabelled value,
      describeBranches_relabelled rest]

end

end Labels

/-! ## 5. One kind of node at a time -/

/-- Two trees are told apart by their lines. -/
def LinesTell (s t : Command) : Prop := ToldApart describe unlabelled s t

/-- Literals are told apart by what they quote. -/
theorem literal_told (text other : Text) : LinesTell (.literal text) (.literal other) := by
  intro rest more _ _ h
  rw [describe, describe] at h
  obtain ⟨rfl, hrest⟩ := Text.quote_append_inj h
  exact ⟨rfl, hrest⟩

/-- So are comments. -/
theorem comment_told (text other : Text) : LinesTell (.comment text) (.comment other) := by
  intro rest more _ _ h
  simp only [describe, List.append_assoc] at h
  obtain ⟨rfl, hrest⟩ := Text.quote_append_inj (List.append_cancel_left h)
  exact ⟨rfl, List.append_cancel_left hrest⟩

/-- Sequences are told apart by their children, one after another. -/
theorem sequence_told {children others : List Command}
    (htold : ∀ a ∈ children, ∀ b ∈ others, LinesTell a b) :
    LinesTell (.sequence children) (.sequence others) := by
  intro rest more _ _ h
  simp only [describe, describeAll_eq, List.append_assoc] at h
  obtain ⟨hsame, hrest⟩ := join_append_inj (unit ',') (unit ')') (units " ") (by decide)
    (by decide) (by decide) htold (fun a _ => describe_append_ne (by decide) a)
      (List.append_cancel_left h)
  refine ⟨?_, hrest⟩
  rw [unlabelled, unlabelled, relabelled, relabelled, relabelledAll_eq, relabelledAll_eq, hsame]

/-- Wrappings are told apart by the wrapper, then by what it wraps. -/
theorem wrap_told {wrapper inner wrapper' inner' : Command} (hwrapper : LinesTell wrapper wrapper')
    (hinner : LinesTell inner inner') :
    LinesTell (.wrap wrapper inner) (.wrap wrapper' inner') := by
  intro rest more _ _ h
  have hcomma (tail : Text) : FollowsLine (units ", " ++ tail) :=
    .cons (u := unit ',') (by decide) _
  have hclose (tail : Text) : FollowsLine (units ")" ++ tail) := .cons (u := unit ')') (by decide) _
  simp only [describe, List.append_assoc] at h
  obtain ⟨houtside, htail⟩ := hwrapper _ _ (hcomma _) (hcomma _) (List.append_cancel_left h)
  obtain ⟨hinside, hrest⟩ := hinner _ _ (hclose _) (hclose _) (List.append_cancel_left htail)
  exact ⟨congrArg₂ Command.wrap houtside hinside, List.append_cancel_left hrest⟩

/-! ### Variants -/

/-- No marker is a parenthesis, so a marker that is missing shows. -/
theorem markerText_append_inj {sampling other : Option Sampling} {rest more : Text}
    (h : markerText sampling ++ unit '(' :: rest = markerText other ++ unit '(' :: more) :
    sampling = other ∧ rest = more := by
  rcases sampling with _ | sampling <;> rcases other with _ | other
  · exact ⟨rfl, (List.cons.inj h).2⟩
  · refine absurd (List.cons.inj h).1 ?_
    cases other <;> decide
  · refine absurd (List.cons.inj h).1.symm ?_
    cases sampling <;> decide
  · obtain ⟨hmarker, htail⟩ := List.cons.inj h
    refine ⟨?_, (List.cons.inj htail).2⟩
    revert hmarker
    cases sampling <;> cases other <;> decide

/-- An option, the labels of its value left out. -/
def unlabelledOption (option : Weighted Command) : Weighted Command :=
  ⟨option.weight, option.value.unlabelled⟩

/-- The weight of an option ends at the colons behind it. -/
theorem option_told {option other : Weighted Command}
    (hweight : ∃ n : Nat, n < Binary64.exactUpTo ∧ option.weight = n)
    (hother : ∃ n : Nat, n < Binary64.exactUpTo ∧ other.weight = n)
    (hvalue : LinesTell option.value other.value) :
    ToldApart describeOption unlabelledOption option other := by
  intro rest more hrest hmore h
  obtain ⟨m, hm, hsame⟩ := hweight
  obtain ⟨n, hn, hsame'⟩ := hother
  simp only [describeOption, hsame, hsame', Decimal.ofRat_natural hm, Decimal.ofRat_natural hn,
    List.append_assoc] at h
  obtain ⟨rfl, htail⟩ := Text.ofNat_append_inj (u := unit ':') (by decide) h
  obtain ⟨hvalues, hfollows⟩ := hvalue rest more hrest hmore (List.cons.inj htail).2
  refine ⟨?_, hfollows⟩
  rw [unlabelledOption, unlabelledOption, hsame, hsame', hvalues]

/-- An option begins with a digit, so it does not begin like the bracket that closes the options. -/
theorem describeOption_append_ne {option : Weighted Command}
    (hweight : ∃ n : Nat, n < Binary64.exactUpTo ∧ option.weight = n) (rest tail : Text) :
    describeOption option ++ rest ≠ unit ']' :: tail := by
  obtain ⟨n, hn, hsame⟩ := hweight
  intro h
  obtain ⟨hsome, hdigits⟩ := Text.ofNat_digits n
  rw [describeOption, hsame, Decimal.ofRat_natural hn] at h
  cases hofNat : Text.ofNat n with
  | nil => exact hsome hofNat
  | cons u digits =>
    rw [hofNat] at h hdigits
    have hdigit := hdigits u List.mem_cons_self
    rw [(List.cons.inj h).1] at hdigit
    exact absurd hdigit (by decide)

/-- Variants are told apart by the marker, the bounds, the separator and then the options. -/
theorem variant_told {label label' : Label} {options others : List (Weighted Command)}
    {least most least' most' : Nat} {separator separator' : Text}
    {sampling sampling' : Option Sampling}
    (hweights : ∀ option ∈ options, ∃ n : Nat, n < Binary64.exactUpTo ∧ option.weight = n)
    (hothers : ∀ option ∈ others, ∃ n : Nat, n < Binary64.exactUpTo ∧ option.weight = n)
    (hvalues : ∀ a ∈ options, ∀ b ∈ others, LinesTell a.value b.value) :
    LinesTell (.variant label options least most separator sampling)
      (.variant label' others least' most' separator' sampling') := by
  intro rest more _ _ h
  simp only [describe, describeOptions_eq, List.append_assoc] at h
  obtain ⟨rfl, hbounds⟩ := markerText_append_inj (List.append_cancel_left h)
  obtain ⟨rfl, hmost⟩ := Text.ofNat_append_inj (u := unit '-') (by decide) hbounds
  obtain ⟨rfl, hseparator⟩ := Text.ofNat_append_inj (u := unit ' ') (by decide) hmost
  obtain ⟨rfl, hoptions⟩ := Text.quote_append_inj hseparator
  -- what follows the options is a bracket, and no option begins with one
  have hbegins : ∀ option ∈ options ++ others, ∀ rest tail : Text,
      describeOption option ++ rest ≠ unit ']' :: tail := by
    intro option hmem
    rcases List.mem_append.1 hmem with hmem | hmem
    · exact describeOption_append_ne (hweights option hmem)
    · exact describeOption_append_ne (hothers option hmem)
  obtain ⟨hsame, hrest⟩ := join_append_inj (unit ' ') (unit ']') (units "| ") (by decide)
    (by decide) (by decide)
    (fun a ha b hb => option_told (hweights a ha) (hothers b hb) (hvalues a ha b hb)) hbegins
    (List.append_cancel_left hoptions)
  refine ⟨?_, hrest⟩
  have hoptions : relabelledOptions (fun _ => noLabel) options = relabelledOptions (fun _ =>
      noLabel) others := by
    rw [relabelledOptions_eq, relabelledOptions_eq]
    exact hsame
  rw [unlabelled, unlabelled, relabelled, relabelled, hoptions]

/-! ### Variables -/

/-- What stands behind the name of a variable that is read. -/
def defaultLine : Option Command → Text
  | some value => units ":" ++ value.describe
  | none => []

/-- What stands behind the name of a variable that is bound. -/
def operatorLine (value : Command) (overwrite immediate : Bool) : Text :=
  units (if overwrite then "=" else "?=") ++ (units (if immediate then "!" else "") ++
    value.describe)

/-- The line of a variable that is read: a dollar, the name and the default. -/
theorem describe_access (name : Text) (fallback : Option Command) :
    describe (.access name fallback) = unit '$' :: (name ++ defaultLine fallback) := by
  cases fallback with
  | none => rw [describe, defaultLine, List.append_nil]; rfl
  | some value => rw [describe, defaultLine, List.append_assoc, List.append_assoc]; rfl

/-- The line of an assignment: a dollar, the name, the operator and the value. -/
theorem describe_assignment (name : Text) (value : Command) (overwrite immediate : Bool) :
    describe (.assignment name value overwrite immediate) =
      unit '$' :: (name ++ operatorLine value overwrite immediate) := by
  rw [describe, operatorLine, List.append_assoc, List.append_assoc, List.append_assoc]
  rfl

/-- What is behind the name of a variable that is read does not go on with it. -/
theorem noName_defaultLine (fallback : Option Command) {rest : Text} (hrest : FollowsLine rest) :
    ∀ u ∈ (defaultLine fallback ++ rest).head?, continuesVariable u = false := by
  cases fallback with
  | none => exact hrest.noName
  | some value =>
    intro u hu
    cases hu
    decide

/-- An operator begins with the equals sign, or with a question mark where it does not overwrite. -/
theorem operatorLine_append (value : Command) (overwrite immediate : Bool) (rest : Text) :
    ∃ tail, operatorLine value overwrite immediate ++ rest =
      (if overwrite then 61 else 63) :: tail := by
  cases overwrite <;> exact ⟨_, rfl⟩

/-- An operator does not go on with a name either. -/
theorem noName_operatorLine (value : Command) (overwrite immediate : Bool) (rest : Text) :
    ∀ u ∈ (operatorLine value overwrite immediate ++ rest).head?, continuesVariable u = false := by
  obtain ⟨tail, htail⟩ := operatorLine_append value overwrite immediate rest
  rw [htail]
  intro u hu
  cases hu
  cases overwrite <;> decide

/-- The name of a variable ends where what stands behind it begins. -/
theorem variable_append_inj {name other rest more : Text} (hname : isVariableName name = true)
    (hother : isVariableName other = true) (hrest : ∀ u ∈ rest.head?, continuesVariable u = false)
    (hmore : ∀ u ∈ more.head?, continuesVariable u = false)
    (h : unit '$' :: (name ++ rest) = unit '$' :: (other ++ more)) : name = other ∧ rest = more :=
  Text.append_inj_of_class (continuesVariable_of_mem hname) (continuesVariable_of_mem hother) hrest
    hmore
    (List.cons.inj h).2

/-- Variables that are read are told apart by the name, then by the default. -/
theorem access_told {name other : Text} (hname : isVariableName name = true)
    (hother : isVariableName other = true) {fallback fallback' : Option Command}
    (htold : ∀ a ∈ fallback, ∀ b ∈ fallback', LinesTell a b) :
    LinesTell (.access name fallback) (.access other fallback') := by
  intro rest more hrest hmore h
  rw [describe_access, describe_access, List.cons_append, List.cons_append, List.append_assoc,
    List.append_assoc] at h
  obtain ⟨rfl, htail⟩ := variable_append_inj hname hother (noName_defaultLine fallback hrest)
    (noName_defaultLine fallback' hmore) h
  rcases fallback with _ | value <;> rcases fallback' with _ | value'
  · exact ⟨rfl, htail⟩
  -- what follows a reading without a default does not begin with a colon
  · exact absurd htail (hrest.ne (by decide) _)
  · exact absurd htail.symm (hmore.ne (by decide) _)
  · obtain ⟨hvalues, hfollows⟩ :=
      htold value rfl value' rfl rest more hrest hmore (List.cons.inj htail).2
    exact ⟨congrArg (fun value => Command.access name (some value)) hvalues, hfollows⟩

/-- A reading is no binding: neither a default nor what follows begins like an operator. -/
theorem access_append_ne {name other : Text} (hname : isVariableName name = true)
    (hother : isVariableName other = true) (fallback : Option Command) (value : Command)
    (overwrite immediate : Bool) {rest : Text} (hrest : FollowsLine rest) (more : Text) :
    describe (.access name fallback) ++
      rest ≠ describe (.assignment other value overwrite immediate) ++ more := by
  intro h
  rw [describe_access, describe_assignment, List.cons_append, List.cons_append, List.append_assoc,
    List.append_assoc] at h
  obtain ⟨-, htail⟩ := variable_append_inj hname hother (noName_defaultLine fallback hrest)
    (noName_operatorLine value overwrite immediate more) h
  obtain ⟨tail, hoperator⟩ := operatorLine_append value overwrite immediate more
  rw [hoperator] at htail
  cases fallback with
  | none => exact hrest.ne (by cases overwrite <;> decide) _ htail
  | some value =>
    refine absurd (List.cons.inj htail).1 ?_
    cases overwrite <;> decide

/-- The value of a binding does not begin with the mark of an immediate one. -/
theorem operatorLine_append_inj {value value' : Command}
    {overwrite overwrite' immediate immediate' : Bool} {rest more : Text}
    (h : operatorLine value overwrite immediate ++
      rest = operatorLine value' overwrite' immediate' ++ more) :
    overwrite = overwrite' ∧ immediate = immediate' ∧ value.describe ++ rest = value'.describe ++
      more := by
  -- a value never begins with the mark of an immediate assignment
  have hmark (command : Command) (rest tail : Text) : command.describe ++ rest ≠ unit '!' :: tail :=
    describe_append_ne (by decide) command rest tail
  have hoverwrite : overwrite = overwrite' := by
    obtain ⟨tail, htail⟩ := operatorLine_append value overwrite immediate rest
    obtain ⟨tail', htail'⟩ := operatorLine_append value' overwrite' immediate' more
    rw [htail, htail'] at h
    have hfirst := (List.cons.inj h).1
    revert hfirst
    cases overwrite <;> cases overwrite' <;> decide
  subst hoverwrite
  simp only [operatorLine, List.append_assoc] at h
  have hvalue := List.append_cancel_left h
  -- with the first mark told apart, only the second can still be there on one side alone
  cases immediate <;> cases immediate'
  · exact ⟨rfl, rfl, hvalue⟩
  · exact absurd hvalue (hmark value _ _)
  · exact absurd hvalue.symm (hmark value' _ _)
  · exact ⟨rfl, rfl, (List.cons.inj hvalue).2⟩

/-- Assignments are told apart by the name, the operator and then the value. -/
theorem assignment_told {name other : Text} (hname : isVariableName name = true)
    (hother : isVariableName other = true) {value value' : Command}
    {overwrite overwrite' immediate immediate' : Bool} (htold : LinesTell value value') :
    LinesTell (.assignment name value overwrite immediate)
      (.assignment other value' overwrite' immediate') := by
  intro rest more hrest hmore h
  rw [describe_assignment, describe_assignment, List.cons_append, List.cons_append,
    List.append_assoc, List.append_assoc] at h
  obtain ⟨rfl, htail⟩ := variable_append_inj hname hother (noName_operatorLine _ _ _ _)
    (noName_operatorLine _ _ _ _) h
  obtain ⟨rfl, rfl, hline⟩ := operatorLine_append_inj htail
  obtain ⟨hvalues, hfollows⟩ := htold rest more hrest hmore hline
  exact ⟨congrArg (Command.assignment name · overwrite immediate) hvalues, hfollows⟩

/-! ## 6. All trees -/

/-- The line of a legible tree ends where it says itself, and tells the tree. -/
theorem linesTell {s : Command} (hs : s.Everywhere Legible) :
    ∀ {t : Command}, t.Everywhere Legible → LinesTell s t := by
  induction hs with
  | node s here _ ih =>
    intro t ht rest more hrest hmore h
    have hlead := lead_eq_of_append h
    have hbelow : ∀ a ∈ s.parts, ∀ b ∈ t.parts, LinesTell a b :=
      fun a ha b hb => ih a ha (ht.of_part hb)
    have hthere := ht.here
    clear ih ht
    -- the lead leaves one kind, except that a dollar begins readings and bindings
    cases s with
    | literal text =>
      cases t with
      | literal other => exact literal_told text other rest more hrest hmore h
      | _ => simp [lead] at hlead
    | comment text =>
      cases t with
      | comment other => exact comment_told text other rest more hrest hmore h
      | probability => exact hthere.elim
      | _ => simp [lead] at hlead
    | sequence children =>
      cases t with
      | sequence others => exact sequence_told hbelow rest more hrest hmore h
      | _ => simp [lead] at hlead
    | variant label options least most separator sampling =>
      cases t with
      | variant label' others least' most' separator' sampling' =>
        exact variant_told here hthere (fun a ha b hb => hbelow _ (List.mem_map_of_mem ha) _
          (List.mem_map_of_mem hb)) rest more hrest hmore h
      | _ => simp [lead] at hlead
    | wrap wrapper inner =>
      cases t with
      | wrap wrapper' inner' =>
        exact wrap_told (hbelow wrapper List.mem_cons_self wrapper' List.mem_cons_self)
          (hbelow inner (List.mem_cons_of_mem _ List.mem_cons_self) inner'
            (List.mem_cons_of_mem _ List.mem_cons_self)) rest more hrest hmore h
      | wildcard => exact hthere.elim
      | _ => simp [lead] at hlead
    | access name fallback =>
      cases t with
      | access other fallback' =>
        exact access_told here hthere (fun a ha b hb => hbelow a (Option.mem_toList.2 ha) b
          (Option.mem_toList.2 hb)) rest more hrest hmore h
      | assignment other value overwrite immediate =>
        exact absurd h (access_append_ne here hthere _ _ _ _ hrest more)
      | _ => simp [lead] at hlead
    | assignment name value overwrite immediate =>
      cases t with
      | access other fallback =>
        exact absurd h.symm (access_append_ne hthere here _ _ _ _ hmore rest)
      | assignment other value' overwrite' immediate' =>
        exact assignment_told here hthere (hbelow value List.mem_cons_self value'
          List.mem_cons_self)
          rest more hrest hmore h
      | _ => simp [lead] at hlead
    | wildcard | probability | condition => exact here.elim

/-- Trees that the constructors make of literals, comments, sequences, variants, wrappings and
variables, with any texts, bounds, separators and methods, and with natural numbers of 53 bits as
weights. -/
inductive Composed : Command → Prop
  | literal (text : Text) : Composed (.literal text)
  | comment (text : Text) : Composed (.comment text)
  | sequence {children : List Command} (each : ∀ child ∈ children, Composed child) :
    Composed (ofList children)
  | variant {label : Label} {options : List (Option Number × Command)} {settings : VariantSettings}
      {command : Command}
      (weights : ∀ option ∈ options, ∀ weight ∈ option.1, ∃ n : Nat, n < 2 ^ 53 ∧ weight = .ofNat n)
      (values : ∀ option ∈ options, Composed option.2)
      (made : makeVariant label options settings = .ok command) : Composed command
  | wrap {wrapper inner : Command} (outside : Composed wrapper) (inside : Composed inner) :
    Composed (.wrap wrapper inner)
  | access {name : Text} {fallback : Option Command} {command : Command}
      (value : ∀ value ∈ fallback, Composed value) (made : makeAccess name fallback = .ok command) :
    Composed command
  | assignment {name : Text} {value : Command} {overwrite immediate : Bool} {command : Command}
      (bound : Composed value)
      (made : makeAssignment name value overwrite immediate = .ok command) :
    Composed command

/-- A natural weight of 53 bits passes the check as it is. -/
theorem exists_natural_of_checkWeight {weight : Option Number} {q : Rat}
    (hnatural : ∀ w ∈ weight, ∃ n : Nat, n < 2 ^ 53 ∧ w = .ofNat n)
    (h : checkWeight (weight.getD 1) = .ok q) : ∃ n : Nat, n < Binary64.exactUpTo ∧ q = n := by
  cases weight with
  | none =>
    cases h
    exact ⟨1, by decide, rfl⟩
  | some weight =>
    obtain ⟨n, hn, rfl⟩ := hnatural weight rfl
    refine ⟨n, hn, ?_⟩
    rw [Option.getD_some, Number.ofNat, checkWeight] at h
    split at h
    · cases h
    · cases h
      rfl

/-- The constructors make legible nodes only. -/
theorem Composed.legible {command : Command} (h : command.Composed) :
    command.Everywhere Legible := by
  induction h with
  | literal text => exact .node _ trivial nofun
  | comment text => exact .node _ trivial nofun
  -- building merges literals and may drop the sequence, so this case is one of lists
  | sequence _ ih => exact everywhere_ofList (fun _ => trivial) (fun _ => trivial) ih
  | @variant label options settings command weights _ made ih =>
    obtain ⟨checked, least, most, hchecked, rfl⟩ := exists_of_makeVariant made
    refine .node _ ?_ fun part hmem => ?_
    · intro option hmem
      obtain ⟨given, hgiven, hweight, -⟩ := exists_of_mem_checkOptions hchecked hmem
      exact exists_natural_of_checkWeight (weights given hgiven) hweight
    · rw [parts, map_value_of_checkOptions hchecked] at hmem
      obtain ⟨given, hgiven, rfl⟩ := List.mem_map.1 hmem
      exact ih given hgiven
  | wrap _ _ outside inside =>
    refine .node _ trivial fun part hmem => ?_
    rcases List.mem_cons.1 hmem with rfl | hmem
    · exact outside
    · rw [List.mem_singleton.1 hmem]
      exact inside
  | @access name fallback command _ made ih =>
    have hname : isVariableName name = true := by
      by_contra hname
      rw [makeAccess, if_neg hname] at made
      cases made
    rw [eq_of_makeAccess made]
    exact .node _ hname fun part hmem => ih part (Option.mem_toList.1 hmem)
  | @assignment name value overwrite immediate command _ made ih =>
    have hname : isVariableName name = true := by
      by_contra hname
      rw [makeAssignment, if_neg hname] at made
      cases made
    rw [eq_of_makeAssignment made]
    exact .node _ hname (List.forall_mem_singleton.2 ih)

/-- **The line of a tree tells the tree.** Two trees, put together in the same way or not and of
whatever texts, have one line exactly if they are one tree; labels, which differ from node to node,
are no part of a line. -/
theorem describe_eq_iff {s t : Command} (hs : s.Composed) (ht : t.Composed) :
    s.describe = t.describe ↔ s.unlabelled = t.unlabelled := by
  constructor
  · intro h
    exact (linesTell hs.legible ht.legible [] [] .nil .nil (congrArg (· ++ []) h)).1
  · intro h
    calc
      s.describe = s.unlabelled.describe := (describe_relabelled s).symm
      _ = t.unlabelled.describe := congrArg describe h
      _ = t.describe := describe_relabelled t

/-- A choice between a bracket and a variable that has a closing parenthesis, in a comment, for a
default. -/
def bracketed (label : Label) : Command :=
  .variant label [⟨0, .literal (units "]")⟩,
    ⟨7, .access (units "b") (some (.comment (units ")")))⟩] 1 2
    (units " | ") (some .random)

/-- A literal that reads like the end of one and the beginning of another, and a binding of a
choice. -/
def entangled (label : Label) : Command :=
  .sequence [.literal (units "\", \""), .assignment (units "a") (bracketed label) false true]

/-- The choice is put together from such commands. -/
theorem bracketed_composed (label : Label) : (bracketed label).Composed := by
  have hread : (Command.access (units "b") (some (.comment (units ")")))).Composed := by
    refine .access ?_ (show makeAccess (units "b") (some (.comment (units ")"))) = .ok _ from rfl)
    intro value hvalue
    cases hvalue
    exact .comment _
  -- the upper bound is clamped to the two options
  refine .variant ?_ ?_ (show makeVariant label [(some (.ofNat 0), .literal (units "]")),
    (some (.ofNat 7), .access (units "b") (some (.comment (units ")"))))]
    ⟨none, some (.ofNat 5), some (units " | "), some .random⟩ = .ok _ from rfl)
  · refine List.forall_mem_cons.2 ⟨?_, List.forall_mem_singleton.2 ?_⟩
    · rintro weight ⟨⟩
      exact ⟨0, by decide, rfl⟩
    · rintro weight ⟨⟩
      exact ⟨7, by decide, rfl⟩
  · exact List.forall_mem_cons.2 ⟨.literal _, List.forall_mem_singleton.2 hread⟩

/-- So is the sequence. -/
theorem entangled_composed (label : Label) : (entangled label).Composed := by
  have hbound : (Command.assignment (units "a") (bracketed label) false true).Composed :=
    .assignment (bracketed_composed label)
      (show makeAssignment (units "a") (bracketed label) false true = .ok _ from rfl)
  exact .sequence (List.forall_mem_cons.2 ⟨.literal _, List.forall_mem_singleton.2 hbound⟩)

/-- Two trees with other labels have one line, and are one tree without them. -/
theorem describe_eq_iff_of_entangled :
    (entangled ⟨[1], .built 0⟩).Composed ∧ (entangled ⟨[2], .built 1⟩).Composed ∧
      (entangled ⟨[1], .built 0⟩).describe = (entangled ⟨[2], .built 1⟩).describe ∧
      (entangled ⟨[1], .built 0⟩).unlabelled = (entangled ⟨[2], .built 1⟩).unlabelled :=
  ⟨entangled_composed _, entangled_composed _, rfl,
    (describe_eq_iff (entangled_composed _) (entangled_composed _)).1 rfl⟩

end Command

end PromptTemplate
