/-
`Traces.lean` -- where a reader goes, what it notes on the way, and where it fails.

A cursor keeps its offset and what is left apart, and only a cursor that came from the
beginning of a source says something of that source (`Cursor.In`). A reader traces a
source if from a place of it it ends at a place of it that is not before, notes places of
it only, and fails with errors of a kind that is left open (`q`). The rules follow the ways
in which readers are put together; neither depth nor rounds matter here, because running
out of them is no error at a place.
-/
import PromptTemplate.Proofs.Template.Ensures

set_option autoImplicit false

namespace PromptTemplate

/-! ## 1. Places of a source -/

/-- The cursor is at a place of the source: behind as much of it as its offset says. -/
def Cursor.In (source : Text) (c : Cursor) : Prop :=
  ∃ before, source = before ++ c.rest ∧ before.length = c.position

namespace Cursor.In

variable {source : Text} {c : Cursor}

/-- The reader starts in the source. -/
theorem start (source : Text) : (Cursor.start source).In source := ⟨[], rfl, rfl⟩

/-- Going on from a place ends at a place that is not before. -/
theorem advance (h : c.In source) (n : Nat) :
    (c.advance n).In source ∧ (c.advance n).position = c.position + min n c.left := by
  induction n generalizing c with
  | zero => exact ⟨h, by rw [Nat.zero_min]; rfl⟩
  | succ n ih =>
    obtain ⟨before, hsource, hlength⟩ := h
    -- one unit at a time: it goes from what is left to what is behind
    rw [Cursor.advance, Cursor.left]
    split
    · next hrest =>
      rw [hrest]
      exact ⟨⟨before, by rw [hsource, hrest], hlength⟩, by simp⟩
    · next u rest hrest =>
      have hnext : Cursor.In source ⟨c.position + 1, some u, rest⟩ :=
        ⟨before ++ [u], by rw [hsource, hrest]; simp, by simp [hlength]⟩
      obtain ⟨hin, hposition⟩ := ih hnext
      refine ⟨hin, ?_⟩
      simp only [hposition, Cursor.left, hrest, List.length_cons]
      omega

/-- The units gone on and those that are left are the source. -/
theorem position_add_left (h : c.In source) : c.position + c.left = source.length := by
  obtain ⟨before, hsource, hlength⟩ := h
  rw [hsource, List.length_append, hlength, Cursor.left]

/-- The reader does not get behind the source. -/
theorem position_le (h : c.In source) : c.position ≤ source.length := by
  have := h.position_add_left
  omega

end Cursor.In

/-! ## 2. Errors at a place -/

/-- The error is at a place of the text: line and column are those of its offset, and
what it found there is what stands there, or nothing at the end of the text. -/
structure SyntaxError.LocatedIn (e : SyntaxError) (t : Text) : Prop where
  inside : e.position ≤ t.length
  address : (e.line, e.column) = locate t e.position
  found : ∀ expected found, e.fault = .unexpected expected found → found = t[e.position]?

/-- A fault that found nothing, or what stands there. -/
theorem SyntaxError.LocatedIn.ofPosition {t : Text} {position : Nat} (hinside : position ≤ t.length)
    {fault : SyntaxFault}
    (hfound : ∀ expected found, fault = .unexpected expected found → found = t[position]?) :
    (SyntaxError.ofPosition t position fault).LocatedIn t := ⟨hinside, rfl, hfound⟩

/-- What is read of a template: itself, and the values of the inline variables in it. Such
a value stands behind the equals sign of one of the pairs between two parentheses, without
the blanks around it, and is read as a template of its own. -/
inductive Template.Contains : Text → Text → Prop
  | itself (source : Text) : Contains source source
  | value (before content after pair text : Text) (closed : unit ')' ∉ content)
      (isPair : pair ∈ Text.splitAt 44 content)
      (inner : Contains (Template.splitBinding pair).2 text) :
      Contains (before ++ units "(" ++ content ++ units ")" ++ after) text

/-! ## 3. The relation -/

/-- Reading ended at a place of the source that is not before `low`, with notes of places
of the source, and with a value and a place after it that have the property; or it was
rejected with such notes, or failed with an error of the kind, unless it ran out of rounds. -/
def Outcome.Traced {α : Type} (source : Text) (q : ParseError → Prop) (low : Nat)
    (post : α → Cursor → Prop) : Outcome α → Prop
  | .accepted value after f =>
    after.In source ∧ low ≤ after.position ∧ f.position ≤ source.length ∧ post value after
  | .rejected f => f.position ≤ source.length
  | .failed error => error ≠ .exhausted → q error

/-- Reading from this place, if it is one of the source, traces the source. -/
def Reader.Traces {α : Type} (source : Text) (q : ParseError → Prop) (reader : Reader α)
    (c : Cursor) (post : α → Cursor → Prop) : Prop :=
  c.In source → ∀ f : Furthest, f.position ≤ source.length →
    (reader c f).Traced source q c.position post

/-- What is noted is within the bound. -/
theorem Furthest.note_position_le {f : Furthest} {bound position : Nat} (h : f.position ≤ bound)
    (hposition : position ≤ bound) (description : Text) :
    (f.note position description).position ≤ bound := by
  unfold note
  split
  · exact hposition
  · split
    · split
      · exact h
      · exact hposition
    · exact h

namespace Reader.Traces

variable {α β : Type} {source : Text} {q : ParseError → Prop} {reader : Reader α} {c : Cursor}
  {post weaker : α → Cursor → Prop}

/-- What is traced implies what is weaker. -/
theorem mono (h : reader.Traces source q c post)
    (himp : ∀ value after, c.position ≤ after.position → post value after → weaker value after) :
    reader.Traces source q c weaker := by
  intro hc f hf
  have hrun := h hc f hf
  cases hread : reader c f with
  | accepted value after f' =>
    rw [hread] at hrun
    exact ⟨hrun.1, hrun.2.1, hrun.2.2.1, himp value after hrun.2.1 hrun.2.2.2⟩
  | rejected f' =>
    rw [hread] at hrun
    exact hrun
  | failed error =>
    rw [hread] at hrun
    exact hrun

/-- What a reader gives, it gives by a run. -/
theorem run (h : reader.Traces source q c post) :
    reader.Traces source q c fun value after =>
      post value after ∧ ∃ f f', reader c f = .accepted value after f' := by
  intro hc f hf
  have hrun := h hc f hf
  cases hread : reader c f with
  | accepted value after f' =>
    rw [hread] at hrun
    exact ⟨hrun.1, hrun.2.1, hrun.2.2.1, hrun.2.2.2, f, f', hread⟩
  | rejected f' =>
    rw [hread] at hrun
    exact hrun
  | failed error =>
    rw [hread] at hrun
    exact hrun

/-- Only places of the source matter. -/
theorem of_in (h : c.In source → reader.Traces source q c post) : reader.Traces source q c post :=
  fun hc => h hc hc

/-- A value that is given at once. -/
theorem pure {value : α} (h : post value c) : Traces source q (Pure.pure value) c post :=
  fun hc _ hf => ⟨hc, Nat.le_refl _, hf, h⟩

/-- What follows goes on from a place that is not before. -/
theorem bind {next : α → Reader β} {last : β → Cursor → Prop} (h : reader.Traces source q c post)
    (hnext : ∀ value after, after.In source → c.position ≤ after.position → post value after →
      (next value).Traces source q after last) :
    (reader >>= next).Traces source q c last := by
  intro hc f hf
  have hrun := h hc f hf
  -- a rejected or failed first step ends the whole; else the second goes on where it stopped
  simp only [Bind.bind, andThen]
  cases hread : reader c f with
  | accepted value after f' =>
    rw [hread] at hrun
    obtain ⟨hin, hle, hf', hpost⟩ := hrun
    have hlast := hnext value after hin hle hpost hin f' hf'
    dsimp only
    cases hread' : next value after f' with
    | accepted found behind f'' =>
      rw [hread'] at hlast
      exact ⟨hlast.1, Nat.le_trans hle hlast.2.1, hlast.2.2⟩
    | rejected f'' =>
      rw [hread'] at hlast
      exact hlast
    | failed error =>
      rw [hread'] at hlast
      exact hlast
  | rejected f' =>
    rw [hread] at hrun
    exact hrun
  | failed error =>
    rw [hread] at hrun
    exact hrun

/-- Both sides of a decision. -/
theorem ite {p : Prop} [Decidable p] {other : Reader α} (h : p → reader.Traces source q c post)
    (hother : ¬p → other.Traces source q c post) :
    (if p then reader else other).Traces source q c post := by
  by_cases hp : p
  · rw [if_pos hp]
    exact h hp
  · rw [if_neg hp]
    exact hother hp

/-- Nothing is traced of a reader that does not take the text. -/
theorem reject : Traces source q Reader.reject c post := fun _ _ hf => hf

/-- An error of the kind. -/
theorem fail {error : ParseError} (h : c.In source → q error) :
    Traces source q (Reader.fail error) c post := fun hc _ _ _ => h hc

/-- Rounds that run out are no error of any kind. -/
theorem exhausted : Traces source q (Reader.fail .exhausted) c post :=
  fun _ _ _ hne => absurd rfl hne

/-- Trying a reader rejects nothing, and goes nowhere if the reader was rejected. -/
theorem attempt (h : reader.Traces source q c post) :
    (Reader.attempt reader).Traces source q c fun found after =>
      (∀ value, found = some value → post value after) ∧ (found = none → after = c) := by
  intro hc f hf
  have hrun := h hc f hf
  rw [Reader.attempt]
  -- what was noted as expected stays noted, also where the cursor goes back
  cases hread : reader c f with
  | accepted value after f' =>
    rw [hread] at hrun
    refine ⟨hrun.1, hrun.2.1, hrun.2.2.1, fun found hfound => ?_, fun hnone => by cases hnone⟩
    cases hfound
    exact hrun.2.2.2
  | rejected f' =>
    rw [hread] at hrun
    exact ⟨hc, Nat.le_refl _, hrun, ⟨fun _ hsome => (by cases hsome), fun _ => rfl⟩⟩
  | failed error =>
    rw [hread] at hrun
    exact hrun

/-- The first of several readers, if each is traced. -/
theorem firstOf {readers : List (Reader α)}
    (h : ∀ reader ∈ readers, reader.Traces source q c post) :
    (Reader.firstOf readers).Traces source q c post := by
  induction readers with
  | nil => exact .reject
  | cons reader readers ih =>
    -- a reader that was rejected only adds to what is expected, and the next one starts from there
    intro hc f hf
    have hrun := h reader List.mem_cons_self hc f hf
    simp only [Reader.firstOf]
    cases hread : reader c f with
    | accepted value after f' =>
      rw [hread] at hrun
      exact hrun
    | rejected f' =>
      rw [hread] at hrun
      exact ih (fun other hmem => h other (List.mem_cons_of_mem _ hmem)) hc f' hrun
    | failed error =>
      rw [hread] at hrun
      exact hrun

/-! ## 4. Looking and taking -/

/-- What looks at its place can use it. -/
theorem bind_here {next : Cursor → Reader α} (h : (next c).Traces source q c post) :
    (Reader.here >>= next).Traces source q c post := h

/-- Moving forward in the source. -/
theorem moveTo {place : Cursor} (hplace : c.In source → place.In source)
    (hle : c.In source → c.position ≤ place.position) :
    (Reader.moveTo place).Traces source q c fun _ after => after = place :=
  fun hc _ hf => ⟨hplace hc, hle hc, hf, rfl⟩

/-- Going on over some units of what is left. -/
theorem moveOn (n : Nat) :
    (Reader.moveTo (c.advance n)).Traces source q c fun _ after => after = c.advance n :=
  moveTo (fun hc => (hc.advance n).1) fun hc => by rw [(hc.advance n).2]; omega

/-- What is expected is only noted. -/
theorem expect (description : Text) :
    (Reader.expect description).Traces source q c fun _ _ => True :=
  fun hc _ hf => ⟨hc, Nat.le_refl _, Furthest.note_position_le hf hc.position_le _, trivial⟩

/-- Units are taken as long as they pass. -/
theorem takeWhile (test : CodeUnit → Bool) :
    (Reader.takeWhile test).Traces source q c fun taken after =>
      taken = c.rest.takeWhile test ∧ after = c.skipWhile test :=
  fun hc _ hf => ⟨(hc.advance _).1, by rw [Cursor.skipWhile, (hc.advance _).2]; omega, hf, rfl, rfl⟩

/-- Blanks are skipped as long as there are any. -/
theorem skipBlanks :
    Reader.skipBlanks.Traces source q c fun _ after => after = c.skipWhile CodeUnit.isBlank :=
  fun hc _ hf => ⟨(hc.advance _).1, by rw [Cursor.skipWhile, (hc.advance _).2]; omega, hf, rfl⟩

/-- A token that is taken stood here, and is gone. -/
theorem tryAccept (token : Text) :
    (Reader.tryAccept token).Traces source q c fun taken after =>
      taken = true → c.rest = token ++ after.rest ∧ c.position + token.length ≤ after.position := by
  intro hc f hf
  rw [Reader.tryAccept]
  cases htoken : c.rest.startsWith token with
  | false =>
    rw [if_neg Bool.false_ne_true]
    exact ⟨hc, Nat.le_refl _, hf, fun htaken => by cases htaken⟩
  | true =>
    -- where the token is, the cursor moves by its length; otherwise it stays
    obtain ⟨rest, hrest⟩ := List.isPrefixOf_iff_prefix.1 htoken
    obtain ⟨hin, hposition⟩ := hc.advance token.length
    have hleft : c.left = token.length + rest.length := by
      rw [Cursor.left, ← hrest, List.length_append]
    rw [if_pos rfl]
    refine ⟨hin, by omega, hf, fun _ => ⟨?_, by omega⟩⟩
    rw [Cursor.advance_rest, ← hrest, List.drop_left]

/-- A token that is taken stood there. -/
theorem accept (token : Text) :
    (Reader.accept token).Traces source q c fun _ after =>
      c.rest = token ++ after.rest ∧ c.position + token.length ≤ after.position := by
  rw [Reader.accept]
  refine (tryAccept token).bind fun taken after hin hle htaken => ?_
  cases taken with
  | true => exact .pure (htaken rfl)
  | false => exact (expect _).bind fun _ _ _ _ _ => .reject

end Reader.Traces

end PromptTemplate
