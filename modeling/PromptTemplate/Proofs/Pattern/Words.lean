/-
`Words.lean` -- regular expressions without operators.

A text in which no unit is an operator, a quantifier or a bracket always compiles, and to its
units one after another; only a dollar sign among them stands for the end of the text
(`Pattern.read_spelled`). A letter is none of these, so a word compiles to its letters
(`Pattern.read_word`).
-/
import PromptTemplate.Proofs.Text.Units

set_option autoImplicit false

namespace PromptTemplate.Pattern

/-- The letters of a word, one after another. -/
def Term.word : Text → Term
  | [] => .empty
  | u :: rest => .sequence (.unit u) (word rest)

/-- What the units of a text stand for, one after another: each for itself, and a dollar sign for
the end of the text or of a line. -/
def Term.spelled (multiline : Bool) : Text → Term
  | [] => .empty
  | u :: rest =>
    .sequence (if u = 36 then (if multiline then .lineEnd else .textEnd) else .unit u)
      (spelled multiline rest)

/-- The units that open, separate or repeat something in a regular expression. -/
def operators : Text := [40, 41, 42, 43, 46, 63, 91, 92, 94, 123, 124]

/-- The unit is no operator. -/
def Spells (u : CodeUnit) : Prop := u ∉ operators

instance (u : CodeUnit) : Decidable (Spells u) := inferInstanceAs (Decidable (u ∉ operators))

theorem Spells.ne {u v : CodeUnit} (hu : Spells u) (hv : ¬Spells v) : u ≠ v := fun h => hv (h ▸ hu)

theorem spells_of_isLetter {u : CodeUnit} (hu : u.isLetter = true) : Spells u := by
  intro hmem
  have hmarks : ∀ v ∈ operators, v.isLetter = false := Text.forall_of_all (by decide)
  rw [hmarks u hmem] at hu
  cases hu

variable {text : Text} {setting : Setting} {enclosing : Enclosing} {progress : Progress}

theorem countGroups_spelled (h : ∀ u ∈ text, Spells u) : countGroups false text = (0, false) := by
  induction text with
  | nil => rfl
  | cons u text ih =>
    have hu := h u List.mem_cons_self
    -- only a backslash, a bracket or a parenthesis would make a difference to the count
    have hescape : u ≠ 92 := hu.ne (by decide)
    have hset : u ≠ 91 := hu.ne (by decide)
    have hgroup : u ≠ 40 := hu.ne (by decide)
    have hrest := ih fun v hv => h v (List.mem_cons_of_mem _ hv)
    cases text with
    | nil => rfl
    | cons v text =>
      unfold countGroups
      rw [if_neg hescape, if_neg hset, if_neg hgroup]
      exact hrest

theorem readQuantifier?_spelled (h : ∀ u ∈ text, Spells u) : readQuantifier? text = none := by
  cases text with
  | nil => rfl
  | cons u text =>
    have hu := h u List.mem_cons_self
    rw [readQuantifier?, if_neg (hu.ne (by decide)), if_neg (hu.ne (by decide)),
      if_neg (hu.ne (by decide)), if_neg (hu.ne (by decide))]

/-- One unit is one term. -/
theorem readTerm_spelled {u : CodeUnit} (hu : Spells u) (h : ∀ u ∈ text, Spells u) (fuel : Nat) :
    readTerm setting (fuel + 1) enclosing progress (u :: text) =
      .ok (if u = 36 then (if setting.multiline then .lineEnd else .textEnd) else .unit u, progress,
        text) := by
  have hne : ∀ v : CodeUnit, ¬Spells v → u ≠ v := fun v hv => hu.ne hv
  have hatom : readAtom setting enclosing (u :: text) =
      if u = 36 then .ok (if setting.multiline then .lineEnd else .textEnd, false, text)
      else .ok (.unit u, true, text) := by
    simp [readAtom, hne 42 (by decide), hne 43 (by decide), hne 63 (by decide), hne 94 (by decide),
      hne 46 (by decide), hne 91 (by decide), hne 92 (by decide), hne 123 (by decide)]
  rw [readTerm, if_neg (hne 40 (by decide)), hatom]
  by_cases hend : u = 36
  -- no quantifier is looked for behind an end, and none stands behind a unit
  · rw [if_pos hend, if_pos hend]
  · rw [if_neg hend, if_neg hend]
    simp only [quantify, readQuantifier?_spelled h, Except.map]

theorem readSequence_spelled (h : ∀ u ∈ text, Spells u) {fuel : Nat} (hfuel : text.length < fuel) :
    readSequence setting fuel enclosing progress text =
      .ok (.spelled setting.multiline text, progress, []) := by
  induction text generalizing fuel with
  | nil =>
    obtain ⟨fuel, rfl⟩ := Nat.exists_eq_succ_of_ne_zero (Nat.ne_zero_of_lt hfuel)
    rfl
  | cons u text ih =>
    -- a term takes one round and the end of the sequence takes another
    obtain ⟨fuel, rfl⟩ := Nat.exists_eq_succ_of_ne_zero (Nat.ne_zero_of_lt hfuel)
    have hu := h u List.mem_cons_self
    have htext : ∀ v ∈ text, Spells v := fun v hv => h v (List.mem_cons_of_mem _ hv)
    have hfuel' : text.length < fuel := Nat.lt_of_succ_lt_succ hfuel
    have hrest := ih htext hfuel'
    obtain ⟨fuel, rfl⟩ := Nat.exists_eq_succ_of_ne_zero (Nat.ne_zero_of_lt hfuel')
    have hend : ¬((u = 124 || u = 41) = true) := by
      simp [hu.ne (by decide : ¬Spells 124), hu.ne (by decide : ¬Spells 41)]
    rw [readSequence, if_neg hend, readTerm_spelled hu htext]
    simp only [hrest, Term.spelled]

theorem resolve_spelled (names : List (Text × Nat)) (multiline : Bool) (text : Text) :
    (Term.spelled multiline text).resolve names = some (.spelled multiline text) := by
  induction text with
  | nil => rfl
  | cons u text ih =>
    rw [Term.spelled, Term.resolve, ih]
    split
    · cases multiline <;> rfl
    · rfl

/-- A text without operators compiles to what its units stand for. -/
theorem read_spelled (h : ∀ u ∈ text, Spells u) (multiline : Bool) :
    read multiline text = .ok ⟨.spelled multiline text, 0⟩ := by
  have hfuel : text.length < 3 * text.length + 2 := by omega
  have hchoice : readChoice ⟨multiline, 0, false⟩ (3 * text.length + 3) ⟨[], []⟩ ⟨0, []⟩ text =
      .ok (.spelled multiline text, ⟨0, []⟩, []) := by
    rw [readChoice, readSequence_spelled h hfuel]
  simp only [read, countGroups_spelled h, hchoice, resolve_spelled]

theorem Term.spelled_eq_word {letters : Text} (h : ∀ u ∈ letters, u.isLetter = true)
    (multiline : Bool) : Term.spelled multiline letters = .word letters := by
  induction letters with
  | nil => rfl
  | cons u letters ih =>
    have hend : u ≠ 36 := CodeUnit.ne_of_isLetter (h u List.mem_cons_self) (by decide)
    rw [spelled, word, if_neg hend, ih fun v hv => h v (List.mem_cons_of_mem _ hv)]

/-- A text of letters compiles, and to a word. -/
theorem read_word {letters : Text} (h : ∀ u ∈ letters, u.isLetter = true) (multiline : Bool) :
    read multiline letters = .ok ⟨.word letters, 0⟩ := by
  rw [read_spelled fun u hu => spells_of_isLetter (h u hu), Term.spelled_eq_word h]

end PromptTemplate.Pattern
