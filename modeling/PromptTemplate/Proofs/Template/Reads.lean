/-
`Reads.lean` -- readers on a text that is known.

Where the text ahead is known, it decides what a reader does: `Reads` says that the reader
accepts and leaves the second text of the first one, and `Refuses` that it rejects. Both
hold wherever in a source the text stands and whatever was noted before, so the position
in the source never shows up. The rules follow the combinators: a list of readers reads
with its first reader that does not refuse.
-/
import PromptTemplate.Proofs.Template.Ensures
import PromptTemplate.Proofs.Text.Units

set_option autoImplicit false

namespace PromptTemplate

variable {α β : Type}

/-- Ahead of the text the reader accepts, with a value as it should be, and leaves the
rest. -/
def Reader.Reads (reader : Reader α) (ahead rest : Text) (good : α → Prop) : Prop :=
  ∀ c f, c.rest = ahead → ∃ value after f', reader c f = .accepted value after f' ∧
    after.rest = rest ∧ good value

/-- Ahead of the text the reader rejects. -/
def Reader.Refuses (reader : Reader α) (ahead : Text) : Prop :=
  ∀ c f, c.rest = ahead → ∃ f', reader c f = .rejected f'

namespace Reader.Reads

variable {reader : Reader α} {ahead between rest : Text} {good : α → Prop} {great : β → Prop}

/-! ## 1. Combining readers -/

/-- The value that is read has every property that follows from the one it is read with. -/
theorem mono {better : α → Prop} (h : reader.Reads ahead rest good)
    (himp : ∀ value, good value → better value) : reader.Reads ahead rest better := by
  intro c f hc
  obtain ⟨value, after, f', hrun, hrest, hgood⟩ := h c f hc
  exact ⟨value, after, f', hrun, hrest, himp value hgood⟩

/-- Nothing is taken for a value that is given. -/
theorem pure {value : α} (h : good value) : Reads (Pure.pure value) ahead ahead good :=
  fun c f hc => ⟨value, c, f, rfl, hc, h⟩

/-- One reader takes the first part, and the next one takes the rest. -/
theorem bind {next : α → Reader β} (h : reader.Reads ahead between good)
    (hnext : ∀ value, good value → (next value).Reads between rest great) :
    (reader >>= next).Reads ahead rest great := by
  intro c f hc
  obtain ⟨value, after, f', hrun, hbetween, hgood⟩ := h c f hc
  obtain ⟨last, final, f'', hrun', hrest, hgreat⟩ := hnext value hgood after f' hbetween
  refine ⟨last, final, f'', ?_, hrest, hgreat⟩
  simp only [Bind.bind, andThen, hrun, hrun']

/-- A reader that looks at its place first. -/
theorem bind_here {next : Cursor → Reader α}
    (h : ∀ c : Cursor, c.rest = ahead → (next c).Reads ahead rest good) :
    (Reader.here >>= next).Reads ahead rest good :=
  fun c f hc => h c hc c f hc

/-- A decision that is known, for the first reader. -/
theorem ite {p : Prop} [Decidable p] {other : Reader α} (hp : p)
    (h : reader.Reads ahead rest good) :
    (if p then reader else other).Reads ahead rest good := by
  rw [if_pos hp]
  exact h

/-- And for the second one. -/
theorem ite_neg {p : Prop} [Decidable p] {other : Reader α} (hp : ¬p)
    (h : reader.Reads ahead rest good) :
    (if p then other else reader).Reads ahead rest good := by
  rw [if_neg hp]
  exact h

/-- An attempt reads what its reader reads. -/
theorem attempt (h : reader.Reads ahead rest good) :
    (Reader.attempt reader).Reads ahead rest fun found =>
      ∃ value, found = some value ∧ good value := by
  intro c f hc
  obtain ⟨value, after, f', hrun, hrest, hgood⟩ := h c f hc
  refine ⟨some value, after, f', ?_, hrest, value, rfl, hgood⟩
  rw [Reader.attempt, hrun]

/-- The first of several readers reads it. -/
theorem firstOf_head {readers : List (Reader α)} (h : reader.Reads ahead rest good) :
    (Reader.firstOf (reader :: readers)).Reads ahead rest good := by
  intro c f hc
  obtain ⟨value, after, f', hrun, hrest, hgood⟩ := h c f hc
  refine ⟨value, after, f', ?_, hrest, hgood⟩
  simp only [Reader.firstOf, hrun]

/-- The first reader refuses, and one of the others reads it. -/
theorem firstOf_tail {readers : List (Reader α)} (hrefuses : reader.Refuses ahead)
    (h : (Reader.firstOf readers).Reads ahead rest good) :
    (Reader.firstOf (reader :: readers)).Reads ahead rest good := by
  intro c f hc
  obtain ⟨f', hrun⟩ := hrefuses c f hc
  obtain ⟨value, after, f'', hrun', hrest, hgood⟩ := h c f' hc
  refine ⟨value, after, f'', ?_, hrest, hgood⟩
  simp only [Reader.firstOf, hrun, hrun']

end Reader.Reads

namespace Reader.Refuses

variable {reader : Reader α} {ahead between : Text} {good : α → Prop}

/-- Nothing is taken by a reader that takes nothing. -/
theorem reject : (Reader.reject : Reader α).Refuses ahead := fun _ f _ => ⟨f, rfl⟩

/-- A reader that refuses is not gone on from. -/
theorem bind {next : α → Reader β} (h : reader.Refuses ahead) :
    (reader >>= next).Refuses ahead := by
  intro c f hc
  obtain ⟨f', hrun⟩ := h c f hc
  refine ⟨f', ?_⟩
  simp only [Bind.bind, andThen, hrun]

/-- What follows a reader that accepts is what refuses. -/
theorem bind_reads {next : α → Reader β} (h : reader.Reads ahead between good)
    (hnext : ∀ value, good value → (next value).Refuses between) :
    (reader >>= next).Refuses ahead := by
  intro c f hc
  obtain ⟨value, after, f', hrun, hbetween, hgood⟩ := h c f hc
  obtain ⟨f'', hrun'⟩ := hnext value hgood after f' hbetween
  refine ⟨f'', ?_⟩
  simp only [Bind.bind, andThen, hrun, hrun']

/-- Looking where the reader stands takes nothing. -/
theorem bind_here {next : Cursor → Reader α}
    (h : ∀ c : Cursor, c.rest = ahead → (next c).Refuses ahead) :
    (Reader.here >>= next).Refuses ahead :=
  fun c f hc => h c hc c f hc

/-- A decision that is known, for the first reader. -/
theorem ite {p : Prop} [Decidable p] {other : Reader α} (hp : p) (h : reader.Refuses ahead) :
    (if p then reader else other).Refuses ahead := by
  rw [if_pos hp]
  exact h

/-- And for the second one. -/
theorem ite_neg {p : Prop} [Decidable p] {other : Reader α} (hp : ¬p) (h : reader.Refuses ahead) :
    (if p then other else reader).Refuses ahead := by
  rw [if_neg hp]
  exact h

/-- An attempt finds nothing where its reader refuses. -/
theorem attempt (h : reader.Refuses ahead) :
    (Reader.attempt reader).Reads ahead ahead (· = none) := by
  intro c f hc
  obtain ⟨f', hrun⟩ := h c f hc
  refine ⟨none, c, f', ?_, hc, rfl⟩
  rw [Reader.attempt, hrun]

/-- Several readers refuse if each does. -/
theorem firstOf {readers : List (Reader α)} (h : ∀ reader ∈ readers, reader.Refuses ahead) :
    (Reader.firstOf readers).Refuses ahead := by
  induction readers with
  | nil => exact .reject
  | cons reader readers ih =>
    intro c f hc
    obtain ⟨f', hrun⟩ := h reader List.mem_cons_self c f hc
    obtain ⟨f'', hrun'⟩ := ih (fun other hmem => h other (List.mem_cons_of_mem _ hmem)) c f' hc
    refine ⟨f'', ?_⟩
    simp only [Reader.firstOf, hrun, hrun']

end Reader.Refuses

/-- Readers in front of a list that refuse leave it to the others. -/
theorem Reader.firstOf_append_of_refuses {front : List (Reader α)} {c : Cursor}
    (h : ∀ reader ∈ front, reader.Refuses c.rest) (readers : List (Reader α)) (f : Furthest) :
    ∃ f', firstOf (front ++ readers) c f = firstOf readers c f' := by
  induction front generalizing f with
  | nil => exact ⟨f, rfl⟩
  | cons reader front ih =>
    obtain ⟨f', hrun⟩ := h reader List.mem_cons_self c f rfl
    obtain ⟨f'', hrest⟩ := ih (fun other hmem => h other (List.mem_cons_of_mem _ hmem)) f'
    refine ⟨f'', ?_⟩
    rw [List.cons_append]
    simp only [firstOf, hrun]
    exact hrest

/-! ## 2. Looking and taking -/

namespace Reader

variable {ahead rest : Text}

/-- What is expected is only noted. -/
theorem reads_expect (description : Text) :
    (Reader.expect description).Reads ahead ahead fun _ => True :=
  fun c f hc => ⟨(), c, f.note c.position description, rfl, hc, trivial⟩

/-- Going some units on from a place ahead of the text. -/
theorem reads_moveTo {c : Cursor} {n : Nat} (h : c.rest.drop n = rest) (here : Text) :
    (Reader.moveTo (c.advance n)).Reads here rest fun _ => True :=
  fun _ f _ => ⟨(), c.advance n, f, rfl, (Cursor.advance_rest n c).trans h, trivial⟩

/-- Units are taken up to the first that does not pass. -/
theorem reads_takeWhile {test : CodeUnit → Bool} {taken : Text}
    (htaken : ∀ u ∈ taken, test u = true) (hrest : ∀ u ∈ rest.head?, test u = false) :
    (Reader.takeWhile test).Reads (taken ++ rest) rest (· = taken) := by
  obtain ⟨htake, hdrop⟩ := takeWhile_append_stop htaken hrest
  intro c f hc
  refine ⟨c.rest.takeWhile test, c.skipWhile test, f, rfl, ?_, ?_⟩
  · rw [Cursor.skipWhile_rest, hc, hdrop]
  · rw [hc, htake]

/-- There are no blanks to skip. -/
theorem reads_skipBlanks (h : ∀ u ∈ ahead.head?, u.isBlank = false) :
    Reader.skipBlanks.Reads ahead ahead fun _ => True := by
  intro c f hc
  have hnone : ∀ u ∈ ([] : Text), u.isBlank = true := nofun
  have hdrop : ([] ++ ahead).dropWhile CodeUnit.isBlank = ahead := (takeWhile_append_stop hnone h).2
  refine ⟨(), c.skipWhile CodeUnit.isBlank, f, rfl, ?_, trivial⟩
  rw [Cursor.skipWhile_rest, hc]
  exact hdrop

/-- A token that stands here is taken. -/
theorem reads_tryAccept (token rest : Text) :
    (Reader.tryAccept token).Reads (token ++ rest) rest (· = true) := by
  intro c f hc
  have htoken : c.rest.startsWith token = true := by
    rw [hc]
    exact List.isPrefixOf_iff_prefix.2 (List.prefix_append token rest)
  refine ⟨true, c.advance token.length, f, ?_, ?_, rfl⟩
  · rw [Reader.tryAccept, if_pos htoken]
  · rw [Cursor.advance_rest, hc, List.drop_left]

/-- One that does not is not. -/
theorem reads_tryAccept_false {token : Text} (h : ahead.startsWith token = false) :
    (Reader.tryAccept token).Reads ahead ahead (· = false) := by
  intro c f hc
  refine ⟨false, c, f, ?_, hc, rfl⟩
  rw [Reader.tryAccept, hc, if_neg (by simp [h])]

/-- A token that has to stand here does. -/
theorem reads_accept (token rest : Text) :
    (Reader.accept token).Reads (token ++ rest) rest fun _ => True := by
  rw [Reader.accept]
  exact (reads_tryAccept token rest).bind fun taken htaken => .ite htaken (.pure trivial)

/-- One that has to and does not is refused. -/
theorem refuses_accept {token : Text} (h : ahead.startsWith token = false) :
    (Reader.accept token).Refuses ahead := by
  rw [Reader.accept]
  refine .bind_reads (reads_tryAccept_false h) fun taken htaken => .ite_neg (by simp [htaken]) ?_
  exact .bind_reads (reads_expect _) fun _ _ => .reject

end Reader

end PromptTemplate
