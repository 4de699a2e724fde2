/-
`Printing.lean` -- trees as templates, and the trees that a template can stand for.

`Command.print` writes each node in the standard syntax of its kind, and says nothing that
a reader would supply anyway: no weight of one, no default bounds, no empty last resort.
Labels are places in a source and so are not printed; trees that differ in nothing else
are told alike by `Command.unlabelled`. `Command.Printable` describes trees whose printing
can be read back: their texts are letters, so nothing that is printed can be taken for
punctuation, and their blocks do not begin like a block of another kind.
-/
import PromptTemplate.Command.Describe
import PromptTemplate.Proofs.Command.Relabelled
import PromptTemplate.Proofs.Pattern.Words

set_option autoImplicit false

namespace PromptTemplate

namespace Command

/-! ## 1. Printing -/

/-- The weight of an option; one goes without saying. -/
def printWeight (weight : Rat) : Text :=
  if weight = 1 then [] else Decimal.ofRat weight ++ units "::"

/-- The bounds and the separator of a variant; those of a variant that declares none go
without saying. -/
def printBounds (least most : Nat) (separator : Text) : Text :=
  if least = 1 ∧ most = 1 ∧ separator = defaultSeparator then []
  else Text.ofNat least ++ units "-" ++ Text.ofNat most ++ units "$$" ++ separator ++ units "$$"

/-- The test of a branch. -/
def printGuard (guard : Guard) : Text :=
  (match guard.key with
    | some key => key ++ units "~="
    | none => [])
    ++ guard.source

mutual

/-- The template of a tree. -/
def print : Command → Text
  | .literal text => text
  | .comment text => units "\x7b*" ++ text ++ units "*\x7d"
  | .sequence children => (printAll children).flatten
  | .variant _ options least most separator sampling =>
    units "\x7b" ++ (markerText sampling ++ printBounds least most separator ++
      (Text.join (units "|") (printOptions options) ++ units "\x7d"))
  | .wildcard _ name inlined sampling =>
    units "__" ++ (markerText sampling ++ printName name ++
      (match inlined with
        | [] => []
        | _ => units "(" ++ Text.join (units ",") (printVariables inlined) ++ units ")") ++
      units "__")
  | .wrap wrapper inner =>
    units "%\x7b" ++ (print wrapper ++ (units "$$" ++ (print inner ++ units "\x7d")))
  | .probability _ chance value _ =>
    units "\x7b" ++ (Decimal.ofRat chance ++ units "::" ++ print value ++ units "\x7d")
  | .condition branches otherwise =>
    units "\x7b" ++ (Text.join (units "|") (printBranches branches) ++
      ((match print otherwise with
        | [] => []
        | text => units "|" ++ text) ++ units "\x7d"))
  | .access name fallback =>
    units "$\x7b" ++ (name ++
      ((match fallback with
        | some value => units ":" ++ print value
        | none => []) ++ units "\x7d"))
  | .assignment name value overwrite immediate =>
    units "$\x7b" ++ (name ++ (units (if overwrite then "=" else "?=") ++
      (units (if immediate then "!" else "") ++
      (print value ++ units "\x7d"))))

/-- The name of a wildcard. -/
def printName : WildcardName Command → Text
  | .fixed name => name
  | .rendered command => print command

/-- The templates of several trees. -/
def printAll : List Command → List Text
  | [] => []
  | command :: rest => print command :: printAll rest

/-- Options with their weights. -/
def printOptions : List (Weighted Command) → List Text
  | [] => []
  | ⟨weight, value⟩ :: rest => (printWeight weight ++ print value) :: printOptions rest

/-- Inline variables with their values. -/
def printVariables : List (Text × Command) → List Text
  | [] => []
  | (name, value) :: rest => (name ++ units "=" ++ print value) :: printVariables rest

/-- Branches with their tests. -/
def printBranches : List (Guarded Command) → List Text
  | [] => []
  | ⟨guard, value⟩ :: rest =>
    (printGuard guard ++ (units "::" ++ print value)) :: printBranches rest

end

theorem printAll_eq (commands : List Command) : printAll commands = commands.map print := by
  induction commands with
  | nil => rfl
  | cons command rest ih => rw [printAll, ih, List.map_cons]

theorem printOptions_eq (options : List (Weighted Command)) :
    printOptions options =
      options.map fun option => printWeight option.weight ++ print option.value := by
  induction options with
  | nil => rfl
  | cons option rest ih => rw [printOptions, ih, List.map_cons]

theorem printBranches_eq (branches : List (Guarded Command)) :
    printBranches branches =
      branches.map fun branch => printGuard branch.guard ++ (units "::" ++ print branch.value) := by
  induction branches with
  | nil => rfl
  | cons branch rest ih => rw [printBranches, ih, List.map_cons]

end Command

/-! ## 2. Printable trees -/

/-- One letter of ASCII or more. -/
def Text.IsLetters (text : Text) : Prop := text ≠ [] ∧ ∀ u ∈ text, u.isLetter = true

instance (text : Text) : Decidable text.IsLetters :=
  decidable_of_iff (text ≠ [] ∧ text.all CodeUnit.isLetter = true)
    (and_congr_right fun _ => List.all_eq_true)

theorem Text.IsLetters.head {text : Text} (h : text.IsLetters) (rest : Text) :
    ∀ u ∈ (text ++ rest).head?, u.isLetter = true := Text.head_append h.1 h.2 rest

/-- A test whose names are letters and read as no number. -/
structure Guard.Printable (guard : Guard) : Prop where
  key : ∀ key ∈ guard.key, key.IsLetters
  source : guard.source.IsLetters
  noNumber : guard.source.map CodeUnit.toLower ∉ [units "inf", units "infinity", units "nan"]
  compiled : Pattern.read false guard.source = .ok guard.pattern

/-- Every word that reads as no number can be tested for. -/
theorem Guard.Printable.word {key : Option Text} {source : Text}
    (hkey : ∀ name ∈ key, Text.IsLetters name) (hsource : source.IsLetters)
    (hnumber : source.map CodeUnit.toLower ∉ [units "inf", units "infinity", units "nan"]) :
    (⟨key, source, ⟨.word source, 0⟩⟩ : Guard).Printable :=
  ⟨hkey, hsource, hnumber, Pattern.read_word hsource.2 false⟩

/-- The settings of a variant that a template can declare, and that leave its first option
in no doubt: behind a marker or bounds a weight would be taken for a pattern, and before a
single option for a chance. A bound that is no exact number is refused as too large; no
variant of a program has so many options. -/
structure PrintableVariant (options : List (Weighted Command)) (least most : Nat) (separator : Text)
    (sampling : Option Sampling) : Prop where
  some : options ≠ []
  weights : ∀ option ∈ options, ∃ n : Nat, 0 < n ∧ n < 1000000 ∧ option.weight = n
  bounds : 1 ≤ least ∧ least ≤ most ∧ most ≤ options.length
  exact : most < Binary64.exactUpTo
  separates : separator = Command.defaultSeparator ∨ separator.IsLetters
  first : ∀ option ∈ options.head?, option.weight = 1 ∨
    sampling = none ∧ Command.printBounds least most separator = [] ∧ 2 ≤ options.length

/-- Trees whose printing can be read back. What stands in a block may be empty. -/
inductive Command.Printable : Command → Prop
  | literal {text : Text} (letters : text.IsLetters) : Printable (.literal text)
  | sequence {children : List Command} (several : 2 ≤ children.length)
      (child : ∀ child ∈ children, child.IsChild) (apart : children.IsChain Command.Apart)
      (each : ∀ child ∈ children, Printable child) : Printable (.sequence children)
  | variant {label : Label} {options : List (Weighted Command)} {least most : Nat}
      {separator : Text} {sampling : Option Sampling}
      (settings : PrintableVariant options least most separator sampling)
      (values : ∀ option ∈ options, option.value ≠ .literal [] → Printable option.value) :
    Printable (.variant label options least most separator sampling)
  | wildcard {label : Label} {name : Text} {sampling : Option Sampling} (letters : name.IsLetters) :
    Printable (.wildcard label (.fixed name) [] sampling)
  | wrap {wrapper inner : Command} (outside : wrapper ≠ .literal [] → Printable wrapper)
      (inside : inner ≠ .literal [] → Printable inner) : Printable (.wrap wrapper inner)
  | condition {branches : List (Guarded Command)} {otherwise : Command} (some : branches ≠ [])
      (guards : ∀ branch ∈ branches, branch.guard.Printable)
      (values : ∀ branch ∈ branches, branch.value ≠ .literal [] → Printable branch.value)
      (last : otherwise ≠ .literal [] → Printable otherwise) :
    Printable (.condition branches otherwise)
  | access {name : Text} {fallback : Option Command} (letters : name.IsLetters)
      (value : ∀ command ∈ fallback, command ≠ .literal [] → Printable command) :
    Printable (.access name fallback)
  | assignment {name : Text} {value : Command} {overwrite immediate : Bool}
      (letters : name.IsLetters) (bound : value ≠ .literal [] → Printable value) :
    Printable (.assignment name value overwrite immediate)

namespace Command

/-- What can be printed in a block: nothing, or a printable tree. -/
def PrintableOperand (command : Command) : Prop := command ≠ .literal [] → command.Printable

/-- The units that a printed node can begin with. -/
def BeginsNode (u : CodeUnit) : Prop := u.isLetter = true ∨ u = 123 ∨ u = 36 ∨ u = 37 ∨ u = 95

theorem Printable.print_head {command : Command} (h : command.Printable) :
    ∃ u rest, command.print = u :: rest ∧ BeginsNode u := by
  -- only letters and the marks that open a node stand first; a sequence
  -- begins with its first child
  induction h with
  | @literal text letters =>
    obtain ⟨hne, hletters⟩ := letters
    cases text with
    | nil => exact absurd rfl hne
    | cons u rest => exact ⟨u, rest, by rw [print], .inl (hletters u List.mem_cons_self)⟩
  | @sequence children several _ _ _ ih =>
    cases children with
    | nil => cases several
    | cons child children =>
      obtain ⟨u, rest, hprint, hu⟩ := ih child List.mem_cons_self
      refine ⟨u, rest ++ (printAll children).flatten, ?_, hu⟩
      rw [print, printAll, List.flatten_cons, hprint, List.cons_append]
  | variant => exact ⟨123, _, by rw [print]; rfl, by simp [BeginsNode]⟩
  | wildcard => exact ⟨95, _, by rw [print]; rfl, by simp [BeginsNode]⟩
  | wrap => exact ⟨37, _, by rw [print]; rfl, by simp [BeginsNode]⟩
  | condition => exact ⟨123, _, by rw [print]; rfl, by simp [BeginsNode]⟩
  | @access name fallback =>
    cases fallback with
    | none => exact ⟨36, _, by rw [print]; rfl, by simp [BeginsNode]⟩
    | some value => exact ⟨36, _, by rw [print]; rfl, by simp [BeginsNode]⟩
  | assignment => exact ⟨36, _, by rw [print]; rfl, by simp [BeginsNode]⟩

/-- The nodes that commands are put together from again. -/
def items : Command → List Command
  | .literal [] => []
  | .sequence children => children
  | other => [other]

/-- What stands at one level of a printable operand. -/
structure PrintableItems (commands : List Command) : Prop where
  child : ∀ command ∈ commands, command.IsChild
  apart : commands.IsChain Apart
  each : ∀ command ∈ commands, command.Printable

theorem PrintableItems.singleton {command : Command} (hchild : command.IsChild)
    (h : command.Printable) : PrintableItems [command] :=
  ⟨List.forall_mem_singleton.2 hchild, .singleton _, List.forall_mem_singleton.2 h⟩

/-- An operand is its items put together, and prints as they do. -/
theorem PrintableOperand.items {command : Command} (h : command.PrintableOperand) :
    PrintableItems command.items ∧ (command.items.map print).flatten = command.print ∧
      ofList command.items = command := by
  cases command with
  | literal text =>
    cases text with
    | nil => exact ⟨⟨nofun, .nil, nofun⟩, by simp [Command.items, print], rfl⟩
    | cons u text =>
      exact ⟨.singleton (List.cons_ne_nil u text) (h (by simp)), by simp [Command.items], rfl⟩
  | sequence children =>
    have hprintable := h (by simp)
    -- a printable sequence has no literals side by side, so nothing is merged when it is rebuilt
    cases hprintable with
    | sequence several child apart each =>
      refine ⟨⟨child, apart, each⟩, by rw [Command.items, print, printAll_eq], ?_⟩
      rw [Command.items, ofList, mergeLiterals_eq_self apart]
      rcases children with _ | ⟨first, _ | ⟨second, rest⟩⟩
      · cases several
      · exact absurd several (by simp)
      · rfl
  | _ => exact ⟨.singleton trivial (h (by simp)), by simp [Command.items], rfl⟩

end Command

end PromptTemplate
