/-
`Twins.lean` -- reading the same text at two places.

Reading looks ahead at the text that is left, and behind only for the colon that keeps two
slashes from being a comment. Places that agree in these are twins, and a reader that runs
at both does the same at both: `Reader.Agree` relates the values, and the places behind them
are twins again. The rules follow the combinators, as those of a logic of two runs do.

How closely two runs are compared is a parameter (`Collation`): loosely, where only the kind
of an error counts and labels are left out, or exactly, where places, notes and errors are the
same and the labels of one run are those of the other under other names.

The depth of blocks and the rounds of a loop are counted from the length of the source, and
so differ between two sources. A run that is out of rounds is left open here, which lets the
rules compare loops of different rounds; that no run is ever out of them is proved elsewhere.
-/
import Mathlib.Data.List.Forall2
import PromptTemplate.Proofs.Command.Relabelled
import PromptTemplate.Proofs.Template.Reads

set_option autoImplicit false

namespace PromptTemplate

/-! ## 1. Twin places -/

namespace Cursor

/-- The same text lies ahead, and a comment up to the end of the line begins at both places
or at neither. -/
structure Twin (c d : Cursor) : Prop where
  rest : c.rest = d.rest
  comment : Template.atLineComment c.previous c.rest = Template.atLineComment d.previous d.rest

variable {c d : Cursor}

/-- A place is its own twin. -/
theorem Twin.refl (c : Cursor) : c.Twin c := ⟨rfl, rfl⟩

/-- Twins stay twins behind as many units. -/
theorem Twin.advance (h : c.Twin d) (n : Nat) : (c.advance n).Twin (d.advance n) := by
  induction n generalizing c d with
  | zero => exact h
  | succ n ih =>
    rw [Cursor.advance, Cursor.advance, ← h.rest]
    cases hrest : c.rest with
    | nil => exact h
    | cons u rest => exact ih ⟨rfl, rfl⟩

/-- Going on twice is going on once. -/
theorem advance_advance (m n : Nat) (c : Cursor) : (c.advance m).advance n = c.advance (m + n) := by
  induction m generalizing c with
  | zero => rw [Nat.zero_add, advance]
  | succ m ih =>
    rw [Nat.succ_add, advance, advance]
    cases hrest : c.rest with
    | nil => cases n with
      | zero => rfl
      | succ n => simp only [advance, hrest]
    | cons u rest => exact ih _

/-- Going on moves by what is left at most. -/
theorem position_advance (n : Nat) (c : Cursor) :
    (c.advance n).position = c.position + min n c.left := by
  induction n generalizing c with
  | zero => rw [advance, Nat.zero_min, Nat.add_zero]
  | succ n ih =>
    rw [advance, left]
    cases hrest : c.rest with
    | nil => rfl
    | cons u rest =>
      have hnext := ih ⟨c.position + 1, some u, rest⟩
      simp only [left, List.length_cons] at hnext ⊢
      omega

/-- The place behind a text that stands here. -/
theorem advance_append {taken rest : Text} {c : Cursor} (h : c.rest = taken ++ rest) :
    c.advance taken.length = ⟨c.position + taken.length, taken.getLast?.or c.previous, rest⟩ := by
  induction taken generalizing c with
  | nil =>
    rw [List.length_nil, advance, ← (show c.rest = rest from h)]
    rfl
  | cons u taken ih =>
    -- one step of the cursor takes one unit and keeps it as the previous one
    have hstep : c.advance (taken.length + 1) =
        Cursor.advance taken.length ⟨c.position + 1, some u, taken ++ rest⟩ := by
      rw [advance, h]
      rfl
    have hlast : taken.getLast?.or (some u) = (u :: taken).getLast?.or c.previous := by
      rw [List.getLast?_cons]
      cases taken.getLast? <;> rfl
    rw [List.length_cons, hstep, ih rfl, hlast, Nat.add_right_comm, Nat.add_assoc]

end Cursor

/-! ## 2. Collations -/

/-- Errors of one kind: two faults at places, or one refusal twice. -/
inductive ParseError.SameKind : ParseError → ParseError → Prop
  | malformed (error other : SyntaxError) : SameKind (.malformed error) (.malformed other)
  | refused (error : BuildError) : SameKind (.refused error) (.refused error)
  | readOnly (name record : Text) : SameKind (.readOnly name record) (.readOnly name record)

/-- Every error of a template is of its own kind. -/
theorem ParseError.SameKind.of_ne_exhausted (error : ParseError) (h : error ≠ .exhausted) :
    error.SameKind error := by
  cases error with
  | exhausted => exact absurd rfl h
  | malformed error => exact .malformed error error
  | refused error => exact .refused error
  | readOnly name record => exact .readOnly name record

/-- A way to compare two readings: which places are twins, which offsets and which notes
correspond, which errors are taken for the same, and what is looked at of the labels of the
first reading and of the second. Whatever the readers do keeps these apart or together in the
same way: that is what the laws say. -/
structure Collation where
  twin : Cursor → Cursor → Prop
  offset : Nat → Nat → Prop
  noted : Furthest → Furthest → Prop
  error : ParseError → ParseError → Prop
  first : Label → Label
  second : Label → Label
  looks : ∀ {c d}, twin c d → c.Twin d
  advance : ∀ {c d}, twin c d → ∀ n, twin (c.advance n) (d.advance n)
  position : ∀ {c d}, twin c d → offset c.position d.position
  index : ∀ n, offset n n
  note : ∀ {c d f g}, twin c d → noted f g → ∀ description,
    noted (f.note c.position description) (g.note d.position description)
  malformed : ∀ {m n}, offset m n → ∀ source fault,
    error (.malformed (.ofPosition source m fault)) (.malformed (.ofPosition source n fault))
  leftover : ∀ {c d f g}, twin c d → noted f g → ∀ source,
    error (.malformed (Template.leftover source c f)) (.malformed (Template.leftover source d g))
  same : ∀ fault, fault ≠ .exhausted → error fault fault

namespace Collation

/-- Loosely: any two places with the same text ahead are twins, errors count by their kind,
and labels do not count. -/
def loose : Collation where
  twin := Cursor.Twin
  offset _ _ := True
  noted _ _ := True
  error := ParseError.SameKind
  first _ := Command.noLabel
  second _ := Command.noLabel
  looks := id
  advance := Cursor.Twin.advance
  position _ := trivial
  index _ := trivial
  note _ _ _ := trivial
  malformed _ _ _ := .malformed _ _
  leftover _ _ _ := .malformed _ _
  same := ParseError.SameKind.of_ne_exhausted

/-- Exactly: everything is the same on both sides but for the labels, and a label of the
second reading is what `rename` makes of that of the first. -/
def relabelling (rename : Label → Label) : Collation where
  twin := Eq
  offset := Eq
  noted := Eq
  error := Eq
  first := rename
  second := id
  looks h := h ▸ .refl _
  advance h _ := h ▸ rfl
  position h := h ▸ rfl
  index _ := rfl
  note h hnoted _ := h ▸ hnoted ▸ rfl
  malformed h _ _ := h ▸ rfl
  leftover h hnoted _ := h ▸ hnoted ▸ rfl
  same _ _ := rfl

variable {k : Collation} {c d : Cursor}

/-- Twins stay twins behind the units that pass a test, which are the same. -/
theorem skipWhile (h : k.twin c d) (test : CodeUnit → Bool) :
    k.twin (c.skipWhile test) (d.skipWhile test) := by
  rw [Cursor.skipWhile, Cursor.skipWhile, ← (k.looks h).rest]
  exact k.advance h _

end Collation

/-! ## 3. Outcomes that agree -/

/-- Results that agree: related values, or errors that are taken for the same. A result that
is out of rounds is left open. -/
inductive ParseError.Agree {α : Type} (k : Collation) (same : α → α → Prop) :
    Except ParseError α → Except ParseError α → Prop
  | ok {value other : α} (h : same value other) : Agree k same (.ok value) (.ok other)
  | error {error other : ParseError} (h : k.error error other) :
    Agree k same (.error error) (.error other)
  | exhausted_left {result : Except ParseError α} : Agree k same (.error .exhausted) result
  | exhausted_right {result : Except ParseError α} : Agree k same result (.error .exhausted)

/-- Outcomes that agree: related values with twin places behind them, two rejections, or
failures that are taken for the same. -/
inductive Outcome.Agree {α : Type} (k : Collation) (same : α → α → Prop) :
    Outcome α → Outcome α → Prop
  | accepted {value other : α} {c d : Cursor} {f g : Furthest} (h : same value other)
      (twin : k.twin c d) (noted : k.noted f g) :
    Agree k same (.accepted value c f) (.accepted other d g)
  | rejected {f g : Furthest} (noted : k.noted f g) : Agree k same (.rejected f) (.rejected g)
  | failed {error other : ParseError} (h : k.error error other) :
    Agree k same (.failed error) (.failed other)
  | exhausted_left {outcome : Outcome α} : Agree k same (.failed .exhausted) outcome
  | exhausted_right {outcome : Outcome α} : Agree k same outcome (.failed .exhausted)

/-- Outcomes that are accepted alike: neither is a rejection or an error. -/
inductive Outcome.AcceptAlike {α : Type} (k : Collation) (same : α → α → Prop) :
    Outcome α → Outcome α → Prop
  | accepted {value other : α} {c d : Cursor} {f g : Furthest} (h : same value other)
      (twin : k.twin c d) (noted : k.noted f g) :
    AcceptAlike k same (.accepted value c f) (.accepted other d g)
  | exhausted_left {outcome : Outcome α} : AcceptAlike k same (.failed .exhausted) outcome
  | exhausted_right {outcome : Outcome α} : AcceptAlike k same outcome (.failed .exhausted)

/-- Outcomes that are accepted alike agree. -/
theorem Outcome.AcceptAlike.agree {α : Type} {k : Collation} {same : α → α → Prop}
    {outcome other : Outcome α} (h : outcome.AcceptAlike k same other) :
    outcome.Agree k same other := by
  cases h with
  | accepted h twin noted => exact .accepted h twin noted
  | exhausted_left => exact .exhausted_left
  | exhausted_right => exact .exhausted_right

/-- From twin places with notes that correspond the readers agree. -/
def Reader.Agree {α : Type} (k : Collation) (same : α → α → Prop) (reader other : Reader α) :
    Prop :=
  ∀ c d : Cursor, k.twin c d → ∀ f g, k.noted f g → (reader c f).Agree k same (other d g)

/-- From these two places, twins or not, the readers accept alike. -/
def Reader.AcceptAlike {α : Type} (k : Collation) (same : α → α → Prop) (reader other : Reader α)
    (c d : Cursor) : Prop :=
  ∀ f g, k.noted f g → (reader c f).AcceptAlike k same (other d g)

/-! ## 4. Combining readers -/

section Combining

variable {α β : Type} {k : Collation} {same : α → α → Prop} {alike : β → β → Prop}

/-- Readers that agree can follow outcomes that do. -/
theorem Outcome.Agree.andThen {reader reader' : Reader α} {c d : Cursor} {f g : Furthest}
    (h : (reader c f).Agree k same (reader' d g)) {next next' : α → Reader β}
    (hnext : ∀ value value', same value value' → (next value).Agree k alike (next' value')) :
    ((reader >>= next) c f).Agree k alike ((reader' >>= next') d g) := by
  simp only [Bind.bind, Reader.andThen]
  generalize reader c f = first, reader' d g = first' at h ⊢
  cases h with
  | accepted hvalue twin noted => exact hnext _ _ hvalue _ _ twin _ _ noted
  | rejected noted => exact .rejected noted
  | failed h => exact .failed h
  | exhausted_left => exact .exhausted_left
  | exhausted_right => exact .exhausted_right

namespace Reader.Agree

variable {reader reader' : Reader α}

/-- A value on each side. -/
theorem pure {value other : α} (h : same value other) :
    Agree k same (Pure.pure value) (Pure.pure other) :=
  fun _ _ htwin _ _ hnoted => .accepted h htwin hnoted

/-- Readers that go on by readers that agree. -/
theorem bind (h : reader.Agree k same reader') {next next' : α → Reader β}
    (hnext : ∀ value value', same value value' → (next value).Agree k alike (next' value')) :
    (reader >>= next).Agree k alike (reader' >>= next') :=
  fun c d htwin f g hnoted => (h c d htwin f g hnoted).andThen hnext

/-- Values that are equal are one value. -/
theorem bind_eq (h : reader.Agree k Eq reader') {next next' : α → Reader β}
    (hnext : ∀ value, (next value).Agree k alike (next' value)) :
    (reader >>= next).Agree k alike (reader' >>= next') :=
  h.bind fun value _ hvalue => hvalue ▸ hnext value

/-- Both sides of a decision that is the same. -/
theorem ite {p : Prop} [Decidable p] {other other' : Reader α} (h : reader.Agree k same reader')
    (hother : other.Agree k same other') :
    (if p then reader else other).Agree k same (if p then reader' else other') := by
  by_cases hp : p
  · rw [if_pos hp, if_pos hp]
    exact h
  · rw [if_neg hp, if_neg hp]
    exact hother

/-- Both sides do not take the text. -/
theorem reject : Agree k same Reader.reject Reader.reject :=
  fun _ _ _ _ _ hnoted => .rejected hnoted

/-- Both sides fail. -/
theorem fail {error other : ParseError} (h : k.error error other) :
    Agree k same (Reader.fail error) (Reader.fail other) := fun _ _ _ _ _ _ => .failed h

/-- A reader without rounds agrees with every other. -/
theorem exhausted_left : Agree k same (Reader.fail .exhausted) reader :=
  fun _ _ _ _ _ _ => .exhausted_left

/-- A reader that ran out of rounds agrees with any. -/
theorem exhausted_right : Agree k same reader (Reader.fail .exhausted) :=
  fun _ _ _ _ _ _ => .exhausted_right

/-- Attempts agree in whether there is a value, and in the value. -/
theorem attempt (h : reader.Agree k same reader') :
    (Reader.attempt reader).Agree k (Option.Rel same) (Reader.attempt reader') := by
  intro c d htwin f g hnoted
  have hrun := h c d htwin f g hnoted
  rw [Reader.attempt, Reader.attempt]
  generalize reader c f = outcome, reader' d g = outcome' at hrun ⊢
  cases hrun with
  | accepted h twin noted => exact .accepted (.some h) twin noted
  | rejected noted => exact .accepted .none htwin noted
  | failed h => exact .failed h
  | exhausted_left => exact .exhausted_left
  | exhausted_right => exact .exhausted_right

/-- Alternatives one after another: both sides take the same one. -/
theorem firstOf {readers others : List (Reader α)}
    (h : List.Forall₂ (Reader.Agree k same) readers others) :
    (Reader.firstOf readers).Agree k same (Reader.firstOf others) := by
  induction h with
  | nil => exact reject
  | @cons first first' _ _ hfirst _ ih =>
    -- both sides reject the same readers, so the same reader decides on either side
    intro c d htwin f g hnoted
    have hrun := hfirst c d htwin f g hnoted
    simp only [Reader.firstOf]
    generalize first c f = outcome, first' d g = outcome' at hrun ⊢
    cases hrun with
    | accepted h twin noted => exact .accepted h twin noted
    | rejected noted => exact ih c d htwin _ _ noted
    | failed h => exact .failed h
    | exhausted_left => exact .exhausted_left
    | exhausted_right => exact .exhausted_right

/-- Rounds one after another, by induction on those of the first side. -/
theorem many (h : reader.Agree k same reader') (rounds rounds' : Nat) :
    (Reader.many reader rounds).Agree k (List.Forall₂ same) (Reader.many reader' rounds') := by
  induction rounds generalizing rounds' with
  | zero => exact exhausted_left
  | succ rounds ih =>
    cases rounds' with
    | zero => exact exhausted_right
    | succ rounds' =>
      rw [Reader.many, Reader.many]
      refine h.attempt.bind fun found found' hfound => ?_
      cases hfound with
      | none => exact pure .nil
      | some hvalue => exact (ih rounds').bind fun _ _ hrest => pure (.cons hvalue hrest)

/-! ### Looking and taking -/

/-- The place where the reader stands is its twin's. -/
theorem here : Reader.here.Agree k k.twin Reader.here :=
  fun _ _ htwin _ _ hnoted => .accepted htwin htwin hnoted

/-- Moving to twins. -/
theorem moveTo {place other : Cursor} (h : k.twin place other) :
    (Reader.moveTo place).Agree k Eq (Reader.moveTo other) :=
  fun _ _ _ _ _ hnoted => .accepted rfl h hnoted

/-- What was expected is noted on both sides. -/
theorem expect (description : Text) :
    (Reader.expect description).Agree k Eq (Reader.expect description) :=
  fun _ _ htwin _ _ hnoted => .accepted rfl htwin (k.note htwin hnoted description)

/-- A token stands on both sides or on none. -/
theorem tryAccept (token : Text) :
    (Reader.tryAccept token).Agree k Eq (Reader.tryAccept token) := by
  intro c d htwin f g hnoted
  rw [Reader.tryAccept, Reader.tryAccept, ← (k.looks htwin).rest]
  split
  · exact .accepted rfl (k.advance htwin _) hnoted
  · exact .accepted rfl htwin hnoted

/-- A token is taken on both sides or on none. -/
theorem accept (token : Text) : (Reader.accept token).Agree k Eq (Reader.accept token) :=
  (tryAccept token).bind_eq fun _ => ite (pure rfl) ((expect _).bind_eq fun _ => reject)

/-- Units that pass a test are the same on both sides. -/
theorem takeWhile (test : CodeUnit → Bool) :
    (Reader.takeWhile test).Agree k Eq (Reader.takeWhile test) :=
  fun _ _ htwin _ _ hnoted =>
    .accepted (by rw [(k.looks htwin).rest]) (Collation.skipWhile htwin test) hnoted

/-- So are blanks. -/
theorem skipBlanks : Reader.skipBlanks.Agree k Eq Reader.skipBlanks :=
  fun _ _ htwin _ _ hnoted => .accepted rfl (Collation.skipWhile htwin _) hnoted

end Reader.Agree

/-! ## 5. Accepting alike -/

namespace Reader.AcceptAlike

variable {reader reader' : Reader α} {c d : Cursor}

/-- A value on each side is accepted. -/
theorem pure {value other : α} (h : same value other) (htwin : k.twin c d) :
    AcceptAlike k same (Pure.pure value) (Pure.pure other) c d :=
  fun _ _ hnoted => .accepted h htwin hnoted

/-- A reader that ran out of rounds is not asked. -/
theorem exhausted_left : AcceptAlike k same (Reader.fail .exhausted) reader c d :=
  fun _ _ _ => .exhausted_left

/-- Neither is it on the other side. -/
theorem exhausted_right : AcceptAlike k same reader (Reader.fail .exhausted) c d :=
  fun _ _ _ => .exhausted_right

/-- What follows begins at twin places, wherever the first reader began. -/
theorem bind (h : reader.AcceptAlike k same reader' c d) {next next' : α → Reader β}
    (hnext : ∀ value value', same value value' → ∀ c d : Cursor, k.twin c d →
      (next value).AcceptAlike k alike (next' value') c d) :
    (reader >>= next).AcceptAlike k alike (reader' >>= next') c d := by
  intro f g hnoted
  have hrun := h f g hnoted
  simp only [Bind.bind, andThen]
  generalize reader c f = first, reader' d g = first' at hrun ⊢
  cases hrun with
  | accepted hvalue twin noted => exact hnext _ _ hvalue _ _ twin _ _ noted
  | exhausted_left => exact .exhausted_left
  | exhausted_right => exact .exhausted_right

/-- Both sides of a decision that is the same. -/
theorem ite {p : Prop} [Decidable p] {other other' : Reader α}
    (h : reader.AcceptAlike k same reader' c d) (hother : other.AcceptAlike k same other' c d) :
    (if p then reader else other).AcceptAlike k same (if p then reader' else other') c d := by
  by_cases hp : p
  · rw [if_pos hp, if_pos hp]
    exact h
  · rw [if_neg hp, if_neg hp]
    exact hother

/-- What looks at its place can use it. -/
theorem bind_here {next next' : Cursor → Reader α} (h : (next c).AcceptAlike k same (next' d) c d) :
    (Reader.here >>= next).AcceptAlike k same (Reader.here >>= next') c d := h

/-- Moving on before reading. -/
theorem bind_moveTo {place place' : Cursor} {next next' : Unit → Reader α}
    (h : (next ()).AcceptAlike k same (next' ()) place place') :
    (Reader.moveTo place >>= next).AcceptAlike k same (Reader.moveTo place' >>= next') c d := h

/-- An attempt that accepts. -/
theorem attempt (h : reader.AcceptAlike k same reader' c d) :
    (Reader.attempt reader).AcceptAlike k (Option.Rel same) (Reader.attempt reader') c d := by
  intro f g hnoted
  have hrun := h f g hnoted
  rw [Reader.attempt, Reader.attempt]
  generalize reader c f = outcome, reader' d g = outcome' at hrun ⊢
  cases hrun with
  | accepted h twin noted => exact .accepted (.some h) twin noted
  | exhausted_left => exact .exhausted_left
  | exhausted_right => exact .exhausted_right

/-- The only alternative. -/
theorem firstOf_singleton (h : reader.AcceptAlike k same reader' c d) :
    (Reader.firstOf [reader]).AcceptAlike k same (Reader.firstOf [reader']) c d := by
  intro f g hnoted
  have hrun := h f g hnoted
  simp only [Reader.firstOf]
  generalize reader c f = outcome, reader' d g = outcome' at hrun ⊢
  cases hrun with
  | accepted h twin noted => exact .accepted h twin noted
  | exhausted_left => exact .exhausted_left
  | exhausted_right => exact .exhausted_right

/-- Readers that agree can follow. -/
theorem bind_agree (h : reader.AcceptAlike k same reader' c d) {next next' : α → Reader β}
    (hnext : ∀ value value', same value value' → (next value).Agree k alike (next' value'))
    {f g : Furthest} (hnoted : k.noted f g) :
    ((reader >>= next) c f).Agree k alike ((reader' >>= next') d g) :=
  (h f g hnoted).agree.andThen hnext

/-- Readers that accept alike from twin places agree. -/
theorem agree (h : ∀ c d : Cursor, k.twin c d → reader.AcceptAlike k same reader' c d) :
    reader.Agree k same reader' := fun c d htwin f g hnoted => (h c d htwin f g hnoted).agree

end Reader.AcceptAlike

end Combining

/-- Readers in front that refuse are passed over; what they note does not count here. -/
theorem Reader.AcceptAlike.firstOf_append {α : Type} {same : α → α → Prop} {c d : Cursor}
    {front front' readers readers' : List (Reader α)}
    (hc : ∀ reader ∈ front, reader.Refuses c.rest) (hd : ∀ reader ∈ front', reader.Refuses d.rest)
    (h : (Reader.firstOf readers).AcceptAlike .loose same (Reader.firstOf readers') c d) :
    (Reader.firstOf (front ++ readers)).AcceptAlike .loose same
      (Reader.firstOf (front' ++ readers')) c d := by
  intro f g _
  obtain ⟨f', hf⟩ := Reader.firstOf_append_of_refuses hc readers f
  obtain ⟨g', hg⟩ := Reader.firstOf_append_of_refuses hd readers' g
  rw [hf, hg]
  exact h f' g' trivial

/-! ## 6. Comments -/

namespace Template

/-- The comments at twin places are as long. The rounds may differ, if both suffice. -/
theorem afterComments_twin {rounds rounds' : Nat} {c d after after' : Cursor} (h : c.Twin d)
    (hafter : afterComments? rounds c = some after)
    (hafter' : afterComments? rounds' d = some after') :
    ∃ length, after = c.advance length ∧ after' = d.advance length := by
  induction rounds generalizing rounds' c d with
  | zero => cases hafter
  | succ rounds ih =>
    cases rounds' with
    | zero => cases hafter'
    | succ rounds' =>
      -- behind one more comment of this length
      have hmore : ∀ length, afterComments? rounds (c.advance length) = some after →
          afterComments? rounds' (d.advance length) = some after' →
          ∃ length, after = c.advance length ∧ after' = d.advance length := by
        intro length hleft hright
        obtain ⟨more, rfl, rfl⟩ := ih (h.advance length) hleft hright
        exact ⟨length + more, Cursor.advance_advance length more c,
          Cursor.advance_advance length more d⟩
      rw [afterComments?] at hafter hafter'
      rw [← h.comment, ← h.rest, Cursor.skipWhile, ← h.rest] at hafter'
      split at hafter
      · next hline =>
        rw [if_pos hline] at hafter'
        exact hmore _ hafter hafter'
      · next hline =>
        rw [if_neg hline] at hafter'
        cases hblock : blockComment? c.rest with
        | some length =>
          rw [hblock] at hafter hafter'
          exact hmore _ hafter hafter'
        | none =>
          rw [hblock] at hafter hafter'
          cases hafter
          cases hafter'
          exact ⟨0, rfl, rfl⟩

/-- Twin places stay twins behind the comments that stand there, and both skip some or none. -/
theorem skipComments_twin {k : Collation} {c d : Cursor} (htwin : k.twin c d) :
    skipComments.AcceptAlike k Eq skipComments c d := by
  intro f g hnoted
  rw [skipComments, skipComments]
  cases hafter : afterComments? (c.rest.length + 1) c with
  | none => exact .exhausted_left
  | some after =>
    cases hafter' : afterComments? (d.rest.length + 1) d with
    | none => exact .exhausted_right
    | some after' =>
      have hlooks := k.looks htwin
      obtain ⟨length, rfl, rfl⟩ := afterComments_twin hlooks hafter hafter'
      refine .accepted ?_ (k.advance htwin length) hnoted
      simp only [Cursor.position_advance, Cursor.left, hlooks.rest, Nat.lt_add_right_iff_pos]

/-- Comments are skipped on both sides. -/
theorem skipComments_agree {k : Collation} : skipComments.Agree k Eq skipComments :=
  Reader.AcceptAlike.agree fun _ _ => skipComments_twin

end Template

end PromptTemplate
