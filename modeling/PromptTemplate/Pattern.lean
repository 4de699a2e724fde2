/-
`Pattern.lean` -- regular expressions, and where they match.

A term is matched by backtracking: it is given a place in the text and what is
to be tried from every place it can reach, in order of preference. The recursion
is on the term; only a repetition counts its rounds, and a round beyond the
required ones that moves nowhere is refused, so the length of the text bounds
them. Inside a look behind everything runs toward the front of the text.
-/
import PromptTemplate.Text

set_option autoImplicit false

namespace PromptTemplate

namespace Pattern

/-! ## 1. Terms -/

/-- A class of units with a name of its own. -/
inductive UnitClass
  | digit
  | blank
  | word
  deriving DecidableEq, Repr

/-- A part of a bracketed set. -/
inductive Item
  | range (low high : CodeUnit)
  | named (negated : Bool) (kind : UnitClass)
  deriving DecidableEq, Repr

/-- A regular expression. -/
inductive Term
  | empty
  | unit (u : CodeUnit)
  | any
  | set (negated : Bool) (items : List Item)
  | sequence (first second : Term)
  | choice (first second : Term)
  | capture (index : Nat) (body : Term)
  | look (ahead positive : Bool) (body : Term)
  | loop (least : Nat) (most : Option Nat) (greedy : Bool) (firstGroup groupCount : Nat)
    (body : Term)
  | textStart
  | textEnd
  | lineStart
  | lineEnd
  | boundary (present : Bool)
  | reference (index : Nat)
  | namedReference (name : Text)
  deriving Repr

/-! ## 2. Units -/

/-- A letter or digit of ASCII, or an underscore. -/
def isWordUnit (u : CodeUnit) : Bool := u.isDigit || u.isLetter || u == 95

/-- Whether a unit belongs to a named class. -/
def UnitClass.holds : UnitClass → CodeUnit → Bool
  | digit, u => u.isDigit
  | blank, u => u.isBlank
  | word, u => isWordUnit u

/-- Whether a unit belongs to a part of a set. -/
def Item.holds : Item → CodeUnit → Bool
  | range low high, u => low ≤ u && u ≤ high
  | named negated kind, u => kind.holds u != negated

/-! ## 3. Places -/

/-- A place in the text: the units on either side, the nearer first, the number of
those before it, and what each group took last. -/
structure Place where
  position : Nat
  before : Text
  after : Text
  captures : List (Option Text)

/-- What follows a match: the final place, if one is reached. -/
abbrev Continue := Place → Option Place

/-- Tries the continuation from each place that is reached, in order. -/
abbrev Matcher := Place → Continue → Option Place

/-- One step over a unit that passes the test, forward or backward. -/
def step (forward : Bool) (test : CodeUnit → Bool) : Matcher := fun p next =>
  if forward then
    match p.after with
    | [] => none
    | u :: rest =>
      if test u then
        next { p with position := p.position + 1, before := u :: p.before, after := rest } else none
  else
    match p.before with
    | [] => none
    | u :: rest =>
      if test u then
        next { p with position := p.position - 1, before := rest, after := u :: p.after } else none

/-- A step over each unit of a text that was taken earlier. -/
def stepOver (forward : Bool) : Text → Matcher
  | [] => fun p next => next p
  | u :: rest => fun p next => step forward (· == u) p fun q => stepOver forward rest q next

/-- The text between two places. -/
def between (p q : Place) : Text :=
  if p.position ≤ q.position then p.after.take (q.position - p.position)
  else q.after.take (p.position - q.position)

/-- Keeps what a group took. -/
def Place.record (p : Place) (index : Nat) (taken : Option Text) : Place :=
  { p with captures := p.captures.set (index - 1) taken }

/-- Forgets what a run of groups took. -/
def Place.forget (p : Place) (firstGroup : Nat) : Nat → Place
  | 0 => p
  | count + 1 => (p.forget firstGroup count).record (firstGroup + count) none

/-- Whether exactly one side of the place is a word unit. -/
def Place.atBoundary (p : Place) : Bool :=
  (p.before.head?.any isWordUnit) != (p.after.head?.any isWordUnit)

/-! ## 4. Matching -/

/-- Up to `fuel` rounds of a body, at least `least` and at most `most` of them. -/
def rounds (body : Matcher) (greedy : Bool) (clear : Place → Place) :
    Nat → Nat → Option Nat → Matcher
  | 0, _, _ => fun _ _ => none
  | fuel + 1, least, most => fun p next =>
    if most = some 0 then next p
    else
      let again (_ : Unit) := body (clear p) fun q =>
        -- a round that takes nothing is not repeated
        if least = 0 && q.position = p.position then none
        else rounds body greedy clear fuel (least - 1) (most.map (· - 1)) q next
      if 0 < least then again ()
      else if greedy then
        match again () with
        | some q => some q
        | none => next p
      else
        match next p with
        | some q => some q
        | none => again ()

/-- The matcher of a term, running forward or backward. -/
def Term.run : Term → (forward : Bool) → Matcher
  | empty, _ => fun p next => next p
  | unit u, forward => step forward (· == u)
  | any, forward => step forward fun u => !u.isLineTerminator
  | set negated items, forward => step forward fun u => (items.any (·.holds u)) != negated
  | sequence first second, forward => fun p next =>
    -- backward, the second term is the nearer one
    if forward then first.run true p fun q => second.run true q next
    else second.run false p fun q => first.run false q next
  | choice first second, forward => fun p next =>
    match first.run forward p next with
    | some q => some q
    | none => second.run forward p next
  | capture index body, forward => fun p next =>
    body.run forward p fun q => next (q.record index (some (between p q)))
  | look ahead positive body, _ => fun p next =>
    -- what a positive look takes is kept, what a negative one took is forgotten
    match body.run ahead p some, positive with
    | some q, true => next { p with captures := q.captures }
    | none, false => next p
    | _, _ => none
  | loop least most greedy firstGroup groupCount body, forward => fun p next =>
    -- every round but those demanded takes a unit, so this many are enough
    rounds (body.run forward) greedy (·.forget firstGroup groupCount)
      (least + p.before.length + p.after.length + 2) least most p next
  | textStart, _ => fun p next => if p.before.isEmpty then next p else none
  | textEnd, _ => fun p next => if p.after.isEmpty then next p else none
  | lineStart, _ =>
    fun p next => if p.before.head?.all CodeUnit.isLineTerminator then next p else none
  | lineEnd, _ => fun p next => if p.after.head?.all CodeUnit.isLineTerminator then next p else none
  | boundary present, _ => fun p next => if p.atBoundary = present then next p else none
  | reference index, forward => fun p next =>
    match p.captures[index - 1]? with
    | some (some taken) => stepOver forward (if forward then taken else taken.reverse) p next
    -- a group that took nothing matches the empty text
    | _ => next p
  | namedReference _, _ => fun p next => next p

end Pattern

/-- A compiled regular expression: its term and how many groups it captures. -/
structure Pattern where
  term : Pattern.Term
  groups : Nat
  deriving Repr

namespace Pattern

/-- A place with nothing captured yet. -/
def start (pattern : Pattern) (position : Nat) (before after : Text) : Place :=
  ⟨position, before, after, List.replicate pattern.groups none⟩

/-- The first match at or after a place: where it begins and where it ends. -/
def search (pattern : Pattern) (position : Nat) (before : Text) : Text → Option (Place × Place)
  | [] =>
    let p := pattern.start position before []
    (pattern.term.run true p some).map fun q => (p, q)
  | u :: rest =>
    let p := pattern.start position before (u :: rest)
    match pattern.term.run true p some with
    | some q => some (p, q)
    | none => pattern.search (position + 1) (u :: before) rest

/-- Whether the expression matches anywhere in a text. -/
def test (pattern : Pattern) (t : Text) : Bool := (pattern.search 0 [] t).isSome

end Pattern

end PromptTemplate
