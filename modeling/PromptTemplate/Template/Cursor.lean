/-
`Cursor.lean` -- reading with backtracking.

A reader starts at a cursor and is accepted with a value and a new cursor, is
rejected, or fails for good. What was expected at the furthest place that any
attempt reached survives a rejection, because that is where the error of the
whole text is reported.
-/
import PromptTemplate.Template.Location

set_option autoImplicit false

namespace PromptTemplate

/-! ## 1. Places and outcomes -/

/-- A place in the source: its offset, the unit before it and the text after it. -/
structure Cursor where
  position : Nat
  previous : Option CodeUnit
  rest : Text
  deriving DecidableEq, Repr

namespace Cursor

/-- The beginning of a source. -/
def start (source : Text) : Cursor := ⟨0, none, source⟩

/-- The place some units further on, or the end. -/
def advance : Nat → Cursor → Cursor
  | 0, c => c
  | n + 1, c =>
    match c.rest with
    | [] => c
    | u :: rest => advance n ⟨c.position + 1, some u, rest⟩

/-- The place after the units that pass a test. -/
def skipWhile (test : CodeUnit → Bool) (c : Cursor) : Cursor :=
  c.advance (c.rest.takeWhile test).length

end Cursor

/-- The furthest place at which something was missing, and what was expected
there, in the order in which it was asked for. -/
structure Furthest where
  position : Nat
  expected : List Text
  deriving DecidableEq, Repr

/-- Notes that something was expected at a place. -/
def Furthest.note (f : Furthest) (position : Nat) (description : Text) : Furthest :=
  if f.position < position then ⟨position, [description]⟩
  else if f.position = position then
    if f.expected.contains description then f else ⟨position, f.expected ++ [description]⟩
  else f

/-- How a reader ends. -/
inductive Outcome (α : Type)
  | accepted (value : α) (cursor : Cursor) (furthest : Furthest)
  | rejected (furthest : Furthest)
  | failed (error : ParseError)

/-- A reader of values. -/
def Reader (α : Type) : Type := Cursor → Furthest → Outcome α

namespace Reader

variable {α β : Type}

/-! ## 2. Combining readers -/

/-- Accepts without reading. -/
def ok (value : α) : Reader α := fun c f => .accepted value c f

/-- Reads one thing after another. -/
def andThen (first : Reader α) (second : α → Reader β) : Reader β := fun c f =>
  match first c f with
  | .accepted value c f => second value c f
  | .rejected f => .rejected f
  | .failed error => .failed error

instance : Monad Reader where
  pure := ok
  bind := andThen

/-- Rejects without a note. -/
def reject : Reader α := fun _ f => .rejected f

/-- Fails for good. -/
def fail (error : ParseError) : Reader α := fun _ _ => .failed error

/-- Reads if it can; a rejection leaves the place as it was. -/
def attempt (reader : Reader α) : Reader (Option α) := fun c f =>
  match reader c f with
  | .accepted value c f => .accepted (some value) c f
  | .rejected f => .accepted none c f
  | .failed error => .failed error

/-- The first reader of a list that is not rejected, each starting at the same
place. -/
def firstOf : List (Reader α) → Reader α
  | [] => reject
  | reader :: readers => fun c f =>
    match reader c f with
    | .rejected f => firstOf readers c f
    | other => other

/-- As many values as there are, if they are fewer than the rounds. -/
def many (reader : Reader α) : (rounds : Nat) → Reader (List α)
  | 0 => fail .exhausted
  | rounds + 1 => do
    match ← attempt reader with
    | none => return []
    | some value => return value :: (← many reader rounds)

/-! ## 3. Looking and taking -/

/-- The current place. -/
def here : Reader Cursor := fun c f => .accepted c c f

/-- Goes to a place. -/
def moveTo (cursor : Cursor) : Reader Unit := fun _ f => .accepted () cursor f

/-- Notes what would have been accepted here. -/
def expect (description : Text) : Reader Unit :=
  fun c f => .accepted () c (f.note c.position description)

/-- Takes a token if it is here, without a note if it is not. -/
def tryAccept (token : Text) : Reader Bool := fun c f =>
  if c.rest.startsWith token then .accepted true (c.advance token.length) f else .accepted false c f

/-- Takes a token, which is noted as expected when it is not here. -/
def accept (token : Text) : Reader Unit := do
  if ← tryAccept token then return ()
  else
    expect token.quote
    reject

/-- Takes the units that pass a test. -/
def takeWhile (test : CodeUnit → Bool) : Reader Text := fun c f =>
  .accepted (c.rest.takeWhile test) (c.skipWhile test) f

/-- Skips blanks. -/
def skipBlanks : Reader Unit := fun c f => .accepted () (c.skipWhile CodeUnit.isBlank) f

end Reader

end PromptTemplate
