/-
`Operands.lean` -- reading what is printed in a block.

The operands of a node are left to the recursive calls of its production
(`Inner.ReadsBack`). What is known of them is how they begin: with a letter or an opener,
so with no blank, no digit and no mark of the grammar that a production asks for first.
-/
import PromptTemplate.Proofs.Template.Punctuation

set_option autoImplicit false

namespace PromptTemplate

/-- What is read is the command, up to labels. -/
def Command.Alike (command read : Command) : Prop := read.unlabelled = command.unlabelled

namespace Template

/-- The recursive call reads the command back, whatever ends it. -/
def Inner.ReadsBack (inner : Inner) (command : Command) : Prop :=
  ∀ rest, Ends .block rest → inner.block.Reads (command.print ++ rest) rest command.Alike

variable {s : Setting} {inner : Inner} {rest : Text}

/-! ## 1. Operands -/

/-- The units that an operand can begin with, or what ends it. -/
def BeginsOperand (u : CodeUnit) : Prop := Command.BeginsNode u ∨ u = 124 ∨ u = 125

/-- What ends a block can stand where an operand is empty. -/
theorem Ends.beginsOperand (h : Ends .block rest) : ∀ u ∈ rest.head?, BeginsOperand u := by
  cases h with
  | _ => exact fun u hu => by cases hu; simp [BeginsOperand, Command.BeginsNode]

/-- An operand as it is printed begins like one. -/
theorem beginsOperand_print {command : Command} (h : command.PrintableOperand)
    (hrest : Ends .block rest) :
    ∀ u ∈ (command.print ++ rest).head?, BeginsOperand u := by
  by_cases hempty : command = .literal []
  · subst hempty
    simpa [Command.print] using hrest.beginsOperand
  · obtain ⟨u, text, hprint, hu⟩ := (h hempty).print_head
    rw [hprint]
    intro v hv
    cases hv
    exact .inl hu

/-- An operand begins with no mark but its own. -/
theorem BeginsOperand.ne {u v : CodeUnit} (h : BeginsOperand u) (hletter : v.isLetter = false)
    (hmark : v ∉ [123, 36, 37, 95, 124, 125]) : u ≠ v := by
  rintro rfl
  rcases h with (hu | hu) | hu
  · rw [hu] at hletter
    cases hletter
  · exact hmark (by rcases hu with rfl | rfl | rfl | rfl <;> simp)
  · exact hmark (by rcases hu with rfl | rfl <;> simp)

/-- It begins with no blank and no digit. -/
theorem BeginsOperand.isBlank {u : CodeUnit} (h : BeginsOperand u) :
    u.isBlank = false ∧ u.isDigit = false := by
  rcases h with (hletter | rfl | rfl | rfl | rfl) | rfl | rfl
  · exact CodeUnit.isBlank_of_isLetter hletter
  all_goals exact ⟨rfl, rfl⟩

/-- Where a block ends there are no blanks to skip. -/
theorem Ends.reads_skipBlanks (h : Ends .block rest) :
    Reader.skipBlanks.Reads rest rest fun _ => True :=
  Reader.reads_skipBlanks fun u hu => (h.beginsOperand u hu).isBlank.1

/-- Only text is trimmed, which carries no label. -/
theorem relabelled_trimOperand {f : Label → Label} (command : Command) :
    (trimOperand command).relabelled f = trimOperand (command.relabelled f) := by
  cases command with
  | sequence children =>
    rw [Command.relabelled, Command.relabelledAll_eq, trimOperand, trimOperand, List.getLast?_map]
    -- only a literal at the end is looked at, and relabelling leaves literals alone
    cases hlast : children.getLast? with
    | none => simp [Command.relabelled, Command.relabelledAll_eq]
    | some last =>
      cases last with
      | literal text =>
        simp only [Option.map_some, Command.relabelled]
        rw [Command.relabelled_ofList, List.map_append, List.map_dropLast]
        cases htrim : text.trimEnd.isEmpty with
        | true => simp
        | false => simp [Command.relabelled]
      | access name fallback =>
        cases fallback <;> simp [Command.relabelled, Command.relabelledAll_eq]
      | _ => simp [Command.relabelled, Command.relabelledAll_eq]
  | access name fallback => cases fallback <;> rfl
  | _ => rfl

/-- A printable operand ends in no blank. -/
theorem trimOperand_eq_self {command : Command} (h : command.PrintableOperand) :
    trimOperand command = command := by
  have hletters : ∀ text : Text, text.IsLetters → text.trimEnd = text := fun text htext =>
    Text.trimEnd_eq_self fun u hu =>
      (CodeUnit.isBlank_of_isLetter (htext.2 u (List.mem_of_getLast? hu))).1
  cases command with
  | literal text =>
    by_cases hempty : text = []
    · subst hempty
      rfl
    · cases h (by simpa using hempty) with
      | literal htext => rw [trimOperand, hletters text htext]
  | sequence children =>
    obtain ⟨hitems, -, hofList⟩ := h.items
    rw [trimOperand]
    split
    · next text hlast =>
      -- the literal at the end keeps its letters, so the children are put together as they were
      obtain ⟨init, rfl⟩ := List.getLast?_eq_some_iff.1 hlast
      cases hitems.each (.literal text) (by simp [Command.items]) with
      | literal htext =>
        have hne : text.isEmpty = false := by simpa using htext.1
        simp only [List.dropLast_concat, hletters text htext, hne, Bool.false_eq_true, if_false]
        exact hofList
    · rfl
  | _ => rfl

/-- An operand is read back if the recursive call reads it back. -/
theorem reads_operand {command : Command} (h : command.PrintableOperand)
    (hinner : inner.ReadsBack command) (hrest : Ends .block rest) :
    (operand inner).Reads (command.print ++ rest) rest command.Alike := by
  rw [operand]
  refine (Reader.reads_skipBlanks fun u hu => (beginsOperand_print h hrest u hu).isBlank.1).bind
    fun _ _ => ?_
  refine (hinner rest hrest).bind fun read hread => .pure ?_
  calc
    (trimOperand read).unlabelled = trimOperand read.unlabelled := relabelled_trimOperand read
    _ = trimOperand command.unlabelled := congrArg trimOperand hread
    _ = (trimOperand command).unlabelled := (relabelled_trimOperand command).symm
    _ = command.unlabelled := by rw [trimOperand_eq_self h]

/-! ## 2. Numbers and markers -/

/-- Digits are split off as a number. -/
theorem splitReal?_digits {digits : Text} (hne : digits ≠ [])
    (hdigits : ∀ u ∈ digits, u.isDigit = true)
    (hrest : ∀ u ∈ rest.head?, u.isDigit = false ∧ u ≠ 46) :
    splitReal? (digits ++ rest) = some (digits, rest) := by
  have htake := Decimal.takeDigits_append hdigits fun u hu => (hrest u hu).1
  have hnonempty : digits.isEmpty = false := by simpa using hne
  simp only [splitReal?, htake, hnonempty]
  -- a point behind the digits would go on the number
  split
  · next more => exact absurd rfl (hrest 46 rfl).2
  · rfl

/-- Without a digit or a point there is no number. -/
theorem splitReal?_eq_none {t : Text} (h : ∀ u ∈ t.head?, u.isDigit = false ∧ u ≠ 46) :
    splitReal? t = none := by
  have hnone : ∀ u ∈ ([] : Text), u.isDigit = true := nofun
  have htake : Decimal.takeDigits t = ([], t) :=
    Decimal.takeDigits_append hnone fun u hu => (h u hu).1
  simp only [splitReal?, htake]
  split
  · next more => exact absurd rfl (h 46 rfl).2
  · rfl

/-- Digits are read as a number. -/
theorem reads_real {digits : Text} (hne : digits ≠ []) (hdigits : ∀ u ∈ digits, u.isDigit = true)
    (hrest : ∀ u ∈ rest.head?, u.isDigit = false ∧ u ≠ 46) :
    real.Reads (digits ++ rest) rest (· = digits) := by
  intro c f hc
  refine ⟨digits, c.advance digits.length, f, ?_, ?_, rfl⟩
  · simp only [real, hc, splitReal?_digits hne hdigits hrest]
  · rw [Cursor.advance_rest, hc, List.drop_left]

/-- Where no number begins none is read. -/
theorem refuses_real {ahead : Text} (h : ∀ u ∈ ahead.head?, u.isDigit = false ∧ u ≠ 46) :
    real.Refuses ahead := by
  intro c f hc
  refine ⟨f, ?_⟩
  simp only [real, hc, splitReal?_eq_none h]

/-- An operand begins with no number. -/
theorem BeginsOperand.noNumber {u : CodeUnit} (h : BeginsOperand u) : u.isDigit = false ∧ u ≠ 46 :=
  ⟨h.isBlank.2, h.ne (by decide) (by decide)⟩

/-- The marker of a method says that method. -/
theorem Sampling.ofMarker?_marker (method : Sampling) :
    Sampling.ofMarker? method.marker = some method := by
  cases method <;> rfl

/-- No other unit is a marker. -/
theorem Sampling.ofMarker?_eq_none {u : CodeUnit} (h : u ≠ 126 ∧ u ≠ 33 ∧ u ≠ 64) :
    Sampling.ofMarker? u = none := by
  obtain ⟨hrandom, hcombinatorial, hcyclical⟩ := h
  refine List.find?_eq_none.2 fun method _ hmarker => ?_
  have heq : method.marker = u := by simpa using hmarker
  cases method with
  | random => exact hrandom heq.symm
  | combinatorial => exact hcombinatorial heq.symm
  | cyclical => exact hcyclical heq.symm

/-- A marker is read, and what is none is left. -/
theorem reads_sampler (sampling : Option Sampling)
    (hrest : ∀ u ∈ rest.head?, u ≠ 126 ∧ u ≠ 33 ∧ u ≠ 64) :
    sampler.Reads (Command.markerText sampling ++ rest) rest (· = sampling) := by
  -- the mark is one unit, and what is printed behind it begins with no mark
  intro c f hc
  cases sampling with
  | none =>
    have hnone : c.rest.head?.bind Sampling.ofMarker? = none := by
      rw [hc]
      exact Option.bind_eq_none_iff.2 fun u hu => Sampling.ofMarker?_eq_none (hrest u hu)
    exact ⟨none, c, f, by simp only [sampler, hnone], hc, rfl⟩
  | some method =>
    have hsome : c.rest.head?.bind Sampling.ofMarker? = some method := by
      rw [hc]
      exact Sampling.ofMarker?_marker method
    refine ⟨some method, c.advance 1, f, by simp only [sampler, hsome], ?_, rfl⟩
    rw [Cursor.advance_rest, hc]
    rfl

/-! ## 3. Parts between bars -/

/-- Further parts, each behind a bar, and what follows them. -/
def behind (pieces : List Text) (tail : Text) : Text :=
  pieces.foldr (fun piece rest => units "|" ++ (piece ++ rest)) tail

/-- Pieces between bars are the first one and then the others. -/
theorem join_append (piece : Text) (pieces : List Text) (tail : Text) :
    Text.join (units "|") (piece :: pieces) ++ tail = piece ++ behind pieces tail := by
  induction pieces generalizing piece with
  | nil => rfl
  | cons next pieces ih =>
    rw [Text.join, List.append_assoc, List.append_assoc, ih, behind, behind, List.foldr_cons]
    exact nofun

/-- There are no more pieces than units written of them. -/
theorem length_behind (pieces : List Text) (tail : Text) :
    pieces.length ≤ (behind pieces tail).length := by
  induction pieces with
  | nil => exact Nat.zero_le _
  | cons piece pieces ih =>
    have hbar : (units "|").length = 1 := rfl
    rw [behind] at ih
    simp only [behind, List.foldr_cons, List.length_append, List.length_cons, hbar]
    omega

/-- Between bars a block goes on or ends. -/
theorem Ends.behind {tail : Text} (h : Ends .block tail) (pieces : List Text) :
    Ends .block (behind pieces tail) := by
  cases pieces with
  | nil => exact h
  | cons piece pieces => exact .bar _

end Template

end PromptTemplate
