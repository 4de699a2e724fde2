/-
`Ensures.lean` -- what a reader ensures, whichever way it ends.

A reader ensures a property from a place if it holds of the value and of the place after
it whenever the reader accepts, and if the reader fails for good only with a proper error.
A rejection is always allowed, for another reader may be tried. What is noted on the way
is left open, so the rules compose over `do` blocks as those of a weakest precondition do,
and the loops have one rule: a round takes something, so the rounds do not run out.
-/
import PromptTemplate.Template.Reader

set_option autoImplicit false

namespace PromptTemplate

/-! ## 1. Places -/

/-- Behind the units that pass a test is what is left when they are dropped. -/
theorem drop_length_takeWhile {α : Type} (test : α → Bool) (l : List α) :
    l.drop (l.takeWhile test).length = l.dropWhile test := by
  induction l with
  | nil => rfl
  | cons a l ih =>
    cases h : test a with
    | true =>
      rw [List.takeWhile_cons_of_pos h, List.dropWhile_cons_of_pos h, List.length_cons,
        List.drop_succ_cons, ih]
    | false => simp [h]

namespace Cursor

/-- How much of the source is left at a place. -/
def left (c : Cursor) : Nat := c.rest.length

/-- Behind as many units is what is left without them. -/
theorem advance_rest (n : Nat) (c : Cursor) : (c.advance n).rest = c.rest.drop n := by
  induction n generalizing c with
  | zero => rfl
  | succ n ih =>
    rw [advance]
    split
    · next hrest => rw [hrest, List.drop_nil]
    · next u rest hrest => rw [ih, hrest, List.drop_succ_cons]

/-- Behind the units that pass a test. -/
theorem skipWhile_rest (test : CodeUnit → Bool) (c : Cursor) :
    (c.skipWhile test).rest = c.rest.dropWhile test := by
  rw [skipWhile, advance_rest, drop_length_takeWhile]

/-- Fewer units are left, by those that were gone on. -/
theorem left_advance (n : Nat) (c : Cursor) : (c.advance n).left = c.left - n := by
  rw [left, left, advance_rest, List.length_drop]

/-- Skipping leaves no more units than there were. -/
theorem left_skipWhile_le (test : CodeUnit → Bool) (c : Cursor) :
    (c.skipWhile test).left ≤ c.left := by
  rw [skipWhile, left_advance]
  omega

end Cursor

/-! ## 2. The relation -/

/-- The errors that reading may end in: a fault at a place, where only a pattern that does
not compile stands for a refused node, or bounds the wrong way round, or the name of an
inline variable that is a field of a node too. -/
inductive ParseError.Proper : ParseError → Prop
  | malformed (error : SyntaxError)
      (only : ∀ cause, error.fault = .pattern cause →
        ∃ source fault, cause = .pattern source fault) :
    Proper (.malformed error)
  | inverted (least most : Nat) (h : most < least) : Proper (.refused (.invertedBounds least most))
  | readOnly (name record : Text) (node : Command) (h : name ∈ node.fields) :
    Proper (.readOnly name record)

/-- The value and the place after it have the property, or reading was rejected, or it
failed with a proper error. -/
def Outcome.Meets {α : Type} (post : α → Cursor → Prop) : Outcome α → Prop
  | .accepted value after _ => post value after
  | .rejected _ => True
  | .failed error => error.Proper

/-- Reading from this place meets the property, whatever was noted before. -/
def Reader.Ensures {α : Type} (reader : Reader α) (c : Cursor) (post : α → Cursor → Prop) : Prop :=
  ∀ f, (reader c f).Meets post

namespace Reader.Ensures

variable {α β : Type} {reader : Reader α} {c : Cursor} {post weaker : α → Cursor → Prop}

/-- What is ensured implies what is weaker. -/
theorem mono (h : reader.Ensures c post)
    (himp : ∀ value after, post value after → weaker value after) : reader.Ensures c weaker := by
  intro f
  have hf := h f
  cases hrun : reader c f with
  | accepted value after f' =>
    rw [hrun] at hf
    exact himp value after hf
  | rejected f' => trivial
  | failed error =>
    rw [hrun] at hf
    exact hf

/-- A value that is given at once. -/
theorem pure {value : α} (h : post value c) : Ensures (Pure.pure value) c post := fun _ => h

/-- Readers one after another. -/
theorem bind {next : α → Reader β} {last : β → Cursor → Prop} (h : reader.Ensures c post)
    (hnext : ∀ value after, post value after → (next value).Ensures after last) :
    (reader >>= next).Ensures c last := by
  intro f
  have hf := h f
  simp only [Bind.bind, andThen]
  cases hrun : reader c f with
  | accepted value after f' =>
    rw [hrun] at hf
    exact hnext value after hf f'
  | rejected f' => trivial
  | failed error =>
    rw [hrun] at hf
    exact hf

/-- Both sides of a decision. -/
theorem ite {p : Prop} [Decidable p] {other : Reader α} (h : p → reader.Ensures c post)
    (hother : ¬p → other.Ensures c post) : (if p then reader else other).Ensures c post := by
  by_cases hp : p
  · rw [if_pos hp]
    exact h hp
  · rw [if_neg hp]
    exact hother hp

/-- Nothing is ensured of a reader that does not take the text. -/
theorem reject : Ensures Reader.reject c post := fun _ => trivial

/-- An error that is proper. -/
theorem fail {error : ParseError} (h : error.Proper) : Ensures (Reader.fail error) c post :=
  fun _ => h

/-- Trying a reader rejects nothing. -/
theorem attempt (h : reader.Ensures c post) :
    (Reader.attempt reader).Ensures c fun found after =>
      (∀ value, found = some value → post value after) ∧ (found = none → after = c) := by
  intro f
  have hf := h f
  rw [Reader.attempt]
  -- trying leaves the cursor where it was if nothing was read; a failure is passed on
  cases hrun : reader c f with
  | accepted value after f' =>
    rw [hrun] at hf
    refine ⟨fun found hfound => ?_, nofun⟩
    cases hfound
    exact hf
  | rejected f' => exact ⟨nofun, fun _ => rfl⟩
  | failed error =>
    rw [hrun] at hf
    exact hf

/-- The first of several readers, if each ensures it. -/
theorem firstOf {readers : List (Reader α)} (h : ∀ reader ∈ readers, reader.Ensures c post) :
    (Reader.firstOf readers).Ensures c post := by
  induction readers with
  | nil => exact .reject
  | cons reader readers ih =>
    intro f
    have hf := h reader List.mem_cons_self f
    simp only [Reader.firstOf]
    -- a reader that was rejected moves what was expected, not the cursor
    cases hrun : reader c f with
    | accepted value after f' =>
      rw [hrun] at hf
      exact hf
    | rejected f' => exact ih (fun other hmem => h other (List.mem_cons_of_mem _ hmem)) f'
    | failed error =>
      rw [hrun] at hf
      exact hf

/-! ## 3. Looking and taking -/

/-- What looks at its place can use it. -/
theorem bind_here {next : Cursor → Reader α} (h : (next c).Ensures c post) :
    (Reader.here >>= next).Ensures c post := h

/-- Moving leads where it says. -/
theorem moveTo (place : Cursor) :
    (Reader.moveTo place).Ensures c fun _ after => after = place := fun _ => rfl

/-- What is expected is only noted. -/
theorem expect (description : Text) :
    (Reader.expect description).Ensures c fun _ after => after = c :=
  fun _ => rfl

/-- Units are taken as long as they pass. -/
theorem takeWhile (test : CodeUnit → Bool) :
    (Reader.takeWhile test).Ensures c fun taken after =>
      taken = c.rest.takeWhile test ∧ after = c.skipWhile test := fun _ => ⟨rfl, rfl⟩

/-- Skipping blanks leaves no more units than there were. -/
theorem skipBlanks : Reader.skipBlanks.Ensures c fun _ after => after.left ≤ c.left :=
  fun _ => Cursor.left_skipWhile_le _ c

/-- A token that is taken is gone. -/
theorem tryAccept (token : Text) :
    (Reader.tryAccept token).Ensures c fun taken after =>
      after.left ≤ c.left ∧ (taken = true → after.left + token.length ≤ c.left) := by
  intro f
  rw [Reader.tryAccept]
  cases htoken : c.rest.startsWith token with
  | true =>
    have hprefix : token.length ≤ c.left := (List.isPrefixOf_iff_prefix.1 htoken).length_le
    have hleft := Cursor.left_advance token.length c
    rw [if_pos rfl]
    exact ⟨by omega, fun _ => by omega⟩
  | false =>
    rw [if_neg Bool.false_ne_true]
    exact ⟨Nat.le_refl _, nofun⟩

/-- A token that is taken is left behind. -/
theorem accept (token : Text) :
    (Reader.accept token).Ensures c fun _ after => after.left + token.length ≤ c.left := by
  rw [Reader.accept]
  refine (tryAccept token).bind fun taken after htaken => ?_
  cases taken with
  | true => exact .pure (htaken.2 rfl)
  | false => exact (expect _).bind fun _ _ _ => .reject

/-! ## 4. Rounds -/

/-- A loop of rounds that each take something ends before its rounds do. -/
theorem many {bound : Nat} {each : α → Prop}
    (h : ∀ c : Cursor, c.left ≤ bound → reader.Ensures c fun value after =>
      after.left < c.left ∧ each value)
    {rounds : Nat} (hrounds : c.left < rounds) (hbound : c.left ≤ bound) :
    (Reader.many reader rounds).Ensures c fun values after =>
      after.left ≤ c.left ∧ ∀ value ∈ values, each value := by
  induction rounds generalizing c with
  | zero => exact absurd hrounds (Nat.not_lt_zero _)
  | succ rounds ih =>
    rw [Reader.many]
    refine (h c hbound).attempt.bind fun found after hfound => ?_
    -- each value shortens what is left, so the rounds last as long as there is something to read
    cases found with
    | none =>
      rw [hfound.2 rfl]
      exact .pure ⟨Nat.le_refl _, nofun⟩
    | some value =>
      obtain ⟨hless, heach⟩ := hfound.1 value rfl
      refine (ih (by omega) (by omega)).bind fun rest last hrest => .pure ⟨by omega, ?_⟩
      exact List.forall_mem_cons.2 ⟨heach, hrest.2⟩

end Reader.Ensures

end PromptTemplate
