/-
`Addresses.lean` -- lines and columns as addresses of a text.

A line and a column are found by counting from the front of a text. Read the other way they lead to
one place of it: the lines before, each with the line break that ends it, and the units of the line
before the column, come to the position (`Text.lineStart`). So two positions have two addresses, and
the later one has the later address in the order of a dictionary.
-/
import Mathlib.Algebra.GroupWithZero.Nat
import PromptTemplate.Template.Location

set_option autoImplicit false

namespace PromptTemplate

/-! ## 1. Lines -/

namespace Text

/-- The first of the pieces between separators goes up to the first separator. -/
theorem head?_splitAt (separator : CodeUnit) (t : Text) :
    (splitAt separator t)[0]? = some (t.takeWhile (· != separator)) := by
  induction t with
  | nil => rfl
  | cons u rest ih =>
    rw [splitAt, List.takeWhile_cons]
    by_cases hu : u = separator
    · simp [hu]
    · rw [if_neg hu, if_pos (bne_iff_ne.2 hu)]
      cases hsplit : splitAt separator rest with
      | nil => simp [hsplit] at ih
      | cons piece pieces =>
        rw [hsplit] at ih
        exact congrArg (some <| u :: ·) (Option.some.inj ih)

/-- Where a line begins, lines being counted from zero: behind those before it, each with the line
break that ends it. -/
def lineStart (lines : List Text) (index : Nat) : Nat :=
  ((lines.take index).map fun line => line.length + 1).sum

variable {lines : List Text} {line : Text} {index : Nat}

@[simp] theorem lineStart_zero : lineStart lines 0 = 0 := rfl

@[simp] theorem lineStart_cons :
    lineStart (line :: lines) (index + 1) = line.length + 1 + lineStart lines index := by
  rw [lineStart, List.take_succ_cons, List.map_cons, List.sum_cons, lineStart]

/-- A line goes up to the line break in front of the next one. -/
theorem lineStart_succ (h : lines[index]? = some line) :
    lineStart lines (index + 1) = lineStart lines index + (line.length + 1) := by
  rw [lineStart, List.take_add_one, h, List.map_append, List.sum_append_nat]
  rfl

theorem lineStart_le {later : Nat} (h : index ≤ later) :
    lineStart lines index ≤ lineStart lines later := by
  obtain ⟨between, rfl⟩ := Nat.exists_eq_add_of_le h
  rw [lineStart, lineStart, List.take_add, List.map_append, List.sum_append_nat]
  exact Nat.le_add_right _ _

end Text

/-! ## 2. Counting -/

/-- A line and a column lead back to their offset. `broken` counts the line breaks before the
offset, and `passed` what the line has before it; the induction takes units off the front of the
text, so the first of its lines loses a unit or ends. What is left of the line behind that many
units is what is left of it at the offset. -/
theorem locateFrom_eq {t : Text} {position : Nat} (hposition : position ≤ t.length)
    (line column : Nat) :
    ∃ broken passed piece,
      locateFrom line column t position =
        (line + broken, (if broken = 0 then column else 1) + passed) ∧
      (Text.splitAt 10 t)[broken]? = some piece ∧ passed ≤ piece.length ∧
      Text.lineStart (Text.splitAt 10 t) broken + passed = position ∧
      piece.drop passed = (t.drop position).takeWhile (· != 10) := by
  induction t generalizing position line column with
  | nil =>
    obtain rfl : position = 0 := Nat.le_zero.1 hposition
    exact ⟨0, 0, [], rfl, rfl, Nat.le_refl _, rfl, rfl⟩
  | cons u rest ih =>
    cases position with
    | zero => exact ⟨0, 0, _, rfl, Text.head?_splitAt 10 (u :: rest), Nat.zero_le _, rfl, rfl⟩
    | succ position =>
      have hposition := Nat.le_of_succ_le_succ hposition
      rw [locateFrom, Text.splitAt, List.drop_succ_cons]
      by_cases hu : u = 10
      · obtain ⟨broken, passed, piece, hlocate, hpiece, hpassed, hoffset, hleft⟩ :=
          ih hposition (line + 1) 1
        refine ⟨broken + 1, passed, piece, ?_, ?_, hpassed, ?_, hleft⟩
        · rw [if_pos hu, hlocate, ite_self, if_neg (Nat.succ_ne_zero _)]
          exact Prod.ext (by dsimp only; omega) rfl
        · rw [if_pos hu]
          exact hpiece
        · rw [if_pos hu, Text.lineStart_cons, List.length_nil]
          omega
      · obtain ⟨broken, passed, piece, hlocate, hpiece, hpassed, hoffset, hleft⟩ :=
          ih hposition line (column + 1)
        rw [if_neg hu, if_neg hu, hlocate]
        cases hsplit : Text.splitAt 10 rest with
        | nil => simp [hsplit] at hpiece
        | cons first pieces =>
          rw [hsplit] at hpiece hoffset
          cases broken with
          | zero =>
            -- still on the first line, which has one unit more in front
            obtain rfl : first = piece := Option.some.inj hpiece
            rw [Text.lineStart_zero] at hoffset
            exact ⟨0, passed + 1, u :: first, Prod.ext rfl (by simp; omega), rfl,
              Nat.succ_le_succ hpassed, by rw [Text.lineStart_zero]; omega, hleft⟩
          | succ broken =>
            rw [Text.lineStart_cons] at hoffset
            refine ⟨broken + 1, passed, piece, rfl, hpiece, hpassed, ?_, hleft⟩
            rw [Text.lineStart_cons, List.length_cons]
            omega

/-! ## 3. Addresses -/

/-- An address, line and column both from one, that leads to a position of a text: to a line of the
text, and there to a unit or to the end. What stands before comes to the position. -/
structure LeadsTo (source : Text) (address : Nat × Nat) (line : Text) (position : Nat) : Prop where
  line_pos : 1 ≤ address.1
  line_le : address.1 ≤ (Text.splitAt 10 source).length
  line_eq : (Text.splitAt 10 source)[address.1 - 1]? = some line
  column_pos : 1 ≤ address.2
  column_le : address.2 ≤ line.length + 1
  offset : Text.lineStart (Text.splitAt 10 source) (address.1 - 1) + (address.2 - 1) = position

namespace LeadsTo

variable {source line line' : Text} {address address' : Nat × Nat} {position position' : Nat}

/-- An address leads to one position. -/
theorem unique (h : LeadsTo source address line position)
    (h' : LeadsTo source address line' position') :
    position = position' := h.offset.symm.trans h'.offset

/-- What is on an earlier line is earlier: the line break in between belongs to neither. -/
theorem lt_of_line_lt (h : LeadsTo source address line position)
    (h' : LeadsTo source address' line' position') (hlt : address.1 < address'.1) :
    position < position' := by
  have hline := h.line_pos
  have hend := Text.lineStart_succ h.line_eq
  have hbegin : Text.lineStart (Text.splitAt 10 source) (address.1 - 1 + 1) ≤
      Text.lineStart (Text.splitAt 10 source) (address'.1 - 1) := Text.lineStart_le (by omega)
  have hcolumn := h.column_le
  have hoffset := h.offset
  have hoffset' := h'.offset
  omega

/-- Addresses grow with the position, in the order of a dictionary. -/
theorem lex_of_lt (h : LeadsTo source address line position)
    (h' : LeadsTo source address' line' position') (hlt : position < position') :
    address.1 < address'.1 ∨ address.1 = address'.1 ∧ address.2 < address'.2 := by
  rcases Nat.lt_trichotomy address.1 address'.1 with hline | hline | hline
  · exact .inl hline
  · refine .inr ⟨hline, ?_⟩
    have hoffset := h.offset
    have hoffset' := h'.offset
    rw [hline] at hoffset
    have := h'.column_pos
    omega
  · exact absurd (h'.lt_of_line_lt h hline) (Nat.lt_asymm hlt)

end LeadsTo

/-- The report of an error shows a line, and under it a caret: under the unit that stands at a
position of a text, or right behind the line if a line break stands there or nothing. -/
structure SyntaxError.ShowsAt (e : SyntaxError) (source line : Text) (position : Nat) : Prop where
  report : e.report source =
    [e.message, units "  " ++ line, List.replicate (e.column + 1) 32 ++ units "^"]
  under : ∀ u, source[position]? = some u → u ≠ 10 → (units "  " ++ line)[e.column + 1]? = some u
  behind : source[position]? = some 10 ∨ source[position]? = none →
    (units "  " ++ line).length = e.column + 1

/-- An error is shown at the position that its address leads to. What a line has behind a column is
what the text has there up to the next line break, and so is the unit under the caret. -/
theorem LeadsTo.showsAt {source shown : Text} {address : Nat × Nat} {position : Nat}
    (h : LeadsTo source address shown position)
    (hleft : shown.drop (address.2 - 1) = (source.drop position).takeWhile (· != 10))
    {e : SyntaxError} (he : (e.line, e.column) = address) : e.ShowsAt source shown position := by
  obtain ⟨hline, hcolumn⟩ := Prod.mk.inj he
  obtain ⟨column, hsucc⟩ := Nat.exists_eq_add_of_le' h.column_pos
  rw [hsucc] at hcolumn hleft
  -- the column counts from one, and the unit at it is that of the source unless the line ends
  have hunit : shown[column]? = source[position]?.filter (· != 10) := by
    rw [← List.head?_drop, ← List.head?_drop, ← List.head?_takeWhile, ← hleft, Nat.add_sub_cancel]
  refine ⟨?_, fun u hu hne => ?_, fun hend => ?_⟩
  · rw [SyntaxError.report, hline, h.line_eq, hcolumn]
    rfl
  · rw [hu, Option.filter_some, if_pos (bne_iff_ne.2 hne)] at hunit
    rw [hcolumn]
    exact hunit
  · have hnone : shown[column]? = none := by
      rcases hend with hend | hend
      · rw [hunit, hend]
        rfl
      · rw [hunit, hend]
        rfl
    have hle := List.getElem?_eq_none_iff.1 hnone
    have hcolumn_le := h.column_le
    rw [List.length_append, hcolumn, show (units "  ").length = 2 from rfl]
    omega

/-! ## 4. Places found -/

/-- The line and the column that are found lead back to the position. -/
theorem leadsTo_locate {source : Text} {position : Nat} (h : position ≤ source.length) :
    ∃ line, LeadsTo source (locate source position) line position ∧
      line.drop ((locate source position).2 - 1) = (source.drop position).takeWhile (· != 10) := by
  obtain ⟨broken, passed, line, hlocate, hline, hpassed, hoffset, hleft⟩ := locateFrom_eq h 1 1
  rw [ite_self] at hlocate
  have haddress : locate source position = (broken + 1, passed + 1) :=
    hlocate.trans (Prod.ext (Nat.add_comm 1 broken) (Nat.add_comm 1 passed))
  rw [haddress]
  exact ⟨line, ⟨Nat.succ_pos _, (List.getElem?_eq_some_iff.1 hline).1, hline, Nat.succ_pos _,
    Nat.succ_le_succ hpassed, hoffset⟩, hleft⟩

/-- **Line and column are a faithful address.** For every position of a text, its end included, the
line that is found is one of the lines of the text and the column is at most one behind the end of
this line; the lines before, each with its line break, and the units before the column come to the
position. So another position has another address, and a later one has a later address. The report
of an error with this address shows this line, with the caret under what stands at the position. -/
theorem locate_faithful {source : Text} {position : Nat} (h : position ≤ source.length) :
    ∃ line, LeadsTo source (locate source position) line position ∧
      (∀ other ≤ source.length, other ≠ position → locate source other ≠ locate source position) ∧
      (∀ later ≤ source.length, position < later →
        (locate source position).1 < (locate source later).1 ∨
          (locate source position).1 = (locate source later).1 ∧
            (locate source position).2 < (locate source later).2) ∧
      ∀ e : SyntaxError, (e.line, e.column) = locate source position →
        e.ShowsAt source line position := by
  obtain ⟨line, hleads, hleft⟩ := leadsTo_locate h
  refine ⟨line, hleads, fun other hother hne heq => hne ?_, fun later hlater hlt => ?_,
    fun e he => hleads.showsAt hleft he⟩
  · obtain ⟨line', hleads', -⟩ := leadsTo_locate hother
    rw [heq] at hleads'
    exact hleads'.unique hleads
  · obtain ⟨line', hleads', -⟩ := leadsTo_locate hlater
    exact hleads.lex_of_lt hleads' hlt

/-- Two lines with an empty one between, the last of them without an end of its own. -/
def threeLines : Text := units "ab\n\ncd"

/-- The line break that ends the empty line stands in its first column, and the end of the text
behind the last unit of the last line. -/
theorem locate_faithful_of_threeLines :
    3 ≤ threeLines.length ∧ locate threeLines 3 = (2, 1) ∧ locate threeLines 6 = (3, 3) ∧
      ∃ line, LeadsTo threeLines (2, 1) line 3 ∧
        (∀ other ≤ threeLines.length, other ≠ 3 → locate threeLines other ≠ (2, 1)) ∧
        (∀ later ≤ threeLines.length, 3 < later →
          2 < (locate threeLines later).1 ∨
            2 = (locate threeLines later).1 ∧ 1 < (locate threeLines later).2) ∧
        ∀ e : SyntaxError, (e.line, e.column) = (2, 1) → e.ShowsAt threeLines line 3 :=
  have h : 3 ≤ threeLines.length := by decide
  ⟨h, rfl, rfl, locate_faithful h⟩

end PromptTemplate
