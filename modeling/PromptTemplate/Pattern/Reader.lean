/-
`Reader.lean` -- reading regular expressions.

The notation is the lenient one: braces and a closing bracket that open nothing
stand for themselves, a numbered escape is a reference only when that many groups
exist and an octal number otherwise, and a name is referred to only when some
group has one. The number of groups and whether any is named are therefore
counted over the whole text before it is read.
-/
import PromptTemplate.Pattern
import PromptTemplate.Text.Identifier
import PromptTemplate.Text.Utf8
import PromptTemplate.Number.Decimal

set_option autoImplicit false

namespace PromptTemplate.Pattern

/-! ## 1. What can go wrong -/

/-- Why a text is no regular expression. -/
inductive Fault
  | unterminatedGroup
  | unmatchedParenthesis
  | unterminatedSet
  | nothingToRepeat
  | escapeAtEnd
  | rangeOutOfOrder
  | countsOutOfOrder
  | invalidGroup
  | invalidGroupName
  | duplicateGroupName
  | unknownGroupName
  | referenceWithoutName
  | invalidQuantifier
  | invalidEscape
  | invalidNameEscape
  deriving DecidableEq, Repr

/-- The reason in words. -/
def Fault.reason : Fault → Text
  | unterminatedGroup => units "Unterminated group"
  | unmatchedParenthesis => units "Unmatched ')'"
  | unterminatedSet => units "Unterminated character class"
  | nothingToRepeat => units "Nothing to repeat"
  | escapeAtEnd => units "\\ at end of pattern"
  | rangeOutOfOrder => units "Range out of order in character class"
  | countsOutOfOrder => units "numbers out of order in \x7b\x7d quantifier"
  | invalidGroup => units "Invalid group"
  | invalidGroupName => units "Invalid capture group name"
  | duplicateGroupName => units "Duplicate capture group name"
  | unknownGroupName => units "Invalid named capture referenced"
  | referenceWithoutName => units "Invalid named reference"
  | invalidQuantifier => units "Invalid quantifier"
  | invalidEscape => units "Invalid escape"
  | invalidNameEscape => units "Invalid Unicode escape"

/-! ## 2. What is known before reading -/

/-- How many groups a text opens, and whether any of them is named. `inSet` tells
whether the text begins inside brackets. -/
def countGroups : (inSet : Bool) → Text → Nat × Bool
  | _, [] => (0, false)
  | _, [_] => (0, false)
  | true, u :: v :: rest =>
    -- 92 is the backslash, which hides the unit after it
    if u = 92 then countGroups true rest
    else countGroups (u != 93) (v :: rest)
  | false, u :: v :: rest =>
    if u = 92 then countGroups false rest
    else if u = 91 then countGroups true (v :: rest)
    -- 40 opens a group, and 63 after it a group of a special kind
    else if u = 40 then
      if v = 63 then
        match rest with
        | 60 :: w :: more =>
          let (count, named) := countGroups false (60 :: w :: more)
          -- 61 and 33 after 60 make it a look behind, anything else a name
          if w = 61 || w = 33 then (count, named) else (count + 1, true)
        | [60] => (1, true)
        | other => countGroups false other
      else
        let (count, named) := countGroups false (v :: rest)
        (count + 1, named)
    else countGroups false (v :: rest)

/-- What holds for the whole reading. -/
structure Setting where
  multiline : Bool
  groups : Nat
  named : Bool

/-- The groups that the current place is inside of. -/
structure Enclosing where
  indices : List Nat
  names : List Text

/-- The groups opened so far and the names of those that are closed. -/
structure Progress where
  opened : Nat
  names : List (Text × Nat)

/-! ## 3. Escapes -/

/-- Digits read in base eight: up to three, of a value below 256. -/
def readOctal : Text → Nat × Text
  | [] => (0, [])
  | a :: rest =>
    let isOctal (u : CodeUnit) : Bool := 48 ≤ u && u ≤ 55
    let first := a.toNat - 48
    match rest with
    | b :: more =>
      if isOctal b then
        let second := first * 8 + (b.toNat - 48)
        match more with
        | c :: others =>
          -- a third digit is taken as long as the value stays below 256
          if second < 32 && isOctal c then (second * 8 + (c.toNat - 48), others) else (second, more)
        | [] => (second, more)
      else (first, rest)
    | [] => (first, rest)

/-- Exactly `count` hexadecimal digits. -/
def readHex (count : Nat) (t : Text) : Option (CodeUnit × Text) :=
  let digits := t.take count
  if digits.length < count then none
  else
    (digits.foldl (fun n u => do return 16 * (← n) + (← Decimal.digitIn? 16 u)) (some 0)).map
      fun (n : Nat) => (n.toUInt16, t.drop count)

/-- The unit that an escape stands for, given what follows the backslash. A
control escape without a letter leaves the backslash standing for itself. -/
def readUnitEscape (setting : Setting) (inSet : Bool) : Text → Except Fault (CodeUnit × Text)
  | [] => .error .escapeAtEnd
  | e :: rest =>
    if e = unit 'f' then .ok (12, rest)
    else if e = unit 'n' then .ok (10, rest)
    else if e = unit 'r' then .ok (13, rest)
    else if e = unit 't' then .ok (9, rest)
    else if e = unit 'v' then .ok (11, rest)
    else if e = unit 'c' then
      match rest with
      | c :: more =>
        -- digits and the underscore, 95, count inside a set only
        if c.isLetter || (inSet && (c.isDigit || c = 95)) then .ok (c &&& 0x1F, more)
        else .ok (92, e :: rest)
      | [] => .ok (92, e :: rest)
    else if 48 ≤ e && e ≤ 55 then
      let (value, more) := readOctal (e :: rest)
      .ok (value.toUInt16, more)
    -- without its digits the escape stands for its letter
    else if e = unit 'x' then .ok ((readHex 2 rest).getD (e, rest))
    else if e = unit 'u' then .ok ((readHex 4 rest).getD (e, rest))
    else if e = unit 'k' && setting.named then .error .invalidEscape
    else .ok (e, rest)

/-- The class that an escape names, if it names one. -/
def classEscape? (e : CodeUnit) : Option Item :=
  if e = unit 'd' then some (.named false .digit)
  else if e = unit 'D' then some (.named true .digit)
  else if e = unit 's' then some (.named false .blank)
  else if e = unit 'S' then some (.named true .blank)
  else if e = unit 'w' then some (.named false .word)
  else if e = unit 'W' then some (.named true .word)
  else none

/-! ## 4. Names of groups -/

/-- Whether a code point can begin a name. -/
def beginsName (p : Nat) : Bool := p == 36 || p == 95 || beginsIdentifier p

/-- Whether a code point can go on a name. -/
def continuesName (p : Nat) : Bool := beginsName p || continuesIdentifier p

/-- A code point in hexadecimal digits up to a closing brace. -/
def readBracedPoint? (t : Text) : Option (Nat × Text) :=
  let digits := (t.map (Decimal.digitIn? 16)).takeWhile (·.isSome)
  let point := digits.foldl (fun n digit => 16 * n + digit.getD 0) 0
  -- 125 is the closing brace
  match t.drop digits.length with
  | 125 :: rest => if digits.isEmpty || 0x10FFFF < point then none else some (point, rest)
  | _ => none

/-- The code point of an escape, given what follows its letter: digits in braces, or
four digits, after which another escape can add the low half of a pair. -/
def readPointEscape? (t : Text) : Option (Nat × Text) :=
  match t with
  -- 123 opens the braces, 92 and 117 begin another escape
  | 123 :: rest => readBracedPoint? rest
  | _ =>
    (readHex 4 t).map fun (high, rest) =>
      match rest with
      | 92 :: 117 :: more =>
        match readHex 4 more with
        | some (low, after) =>
          if high.isHigh && low.isLow then (pairPoint high low, after) else (high.toNat, rest)
        | none => (high.toNat, rest)
      | _ => (high.toNat, rest)

/-- The first code point of a text, an escaped one included. -/
def readNamePoint : Text → Except Fault (Nat × Text)
  | [] => .error .invalidGroupName
  | 92 :: 117 :: rest =>
    match readPointEscape? rest with
    | some found => .ok found
    | none => .error .invalidNameEscape
  | [u] => .ok (u.toNat, [])
  | u :: v :: rest =>
    if u.isHigh && v.isLow then .ok (pairPoint u v, rest) else .ok (u.toNat, v :: rest)

/-- A name up to its closing bracket. -/
def readName : Nat → (atStart : Bool) → Text → Except Fault (Text × Text)
  | 0, _, _ => .error .invalidGroupName
  | fuel + 1, atStart, t => do
    -- 62 closes the name, which must not be empty
    let (point, rest) ← readNamePoint t
    if point = 62 && !atStart then return ([], rest)
    else if point != 92 && (if atStart then beginsName point else continuesName point) then
      let (name, after) ← readName fuel false rest
      return (Utf8.unitsOfPoint point ++ name, after)
    else .error .invalidGroupName

/-! ## 5. Sets -/

/-- One member of a set: a class, or a unit. -/
def readSetMember (setting : Setting) : Text → Except Fault ((Item ⊕ CodeUnit) × Text)
  | [] => .error .unterminatedSet
  -- 92 is the backslash
  | 92 :: [] => .error .escapeAtEnd
  | 92 :: e :: rest =>
    if e = unit 'b' then .ok (.inr 8, rest)
    else
      match classEscape? e with
      | some item => .ok (.inl item, rest)
      | none => (readUnitEscape setting true (e :: rest)).map fun (u, more) => (.inr u, more)
  | u :: rest => .ok (.inr u, rest)

/-- A member as a part of the set. -/
def asItem : Item ⊕ CodeUnit → Item
  | .inl item => item
  | .inr u => .range u u

/-- The parts of a set up to its bracket. A hyphen between two units spans the
range between them; beside a class or at the end it stands for itself. -/
def readSet (setting : Setting) : Nat → List Item → Text → Except Fault (List Item × Text)
  | 0, _, _ => .error .unterminatedSet
  | _ + 1, _, [] => .error .unterminatedSet
  | fuel + 1, items, u :: t =>
    if u = 93 then .ok (items, t)
    else do
      let (low, rest) ← readSetMember setting (u :: t)
      -- 45 is the hyphen and 93 the closing bracket
      match rest with
      | 45 :: [] => .error .unterminatedSet
      | 45 :: 93 :: after => .ok (items ++ [asItem low, .range 45 45], after)
      | 45 :: more => do
        let (high, after) ← readSetMember setting more
        match low, high with
        | .inr a, .inr b =>
          if b < a then .error .rangeOutOfOrder
          else readSet setting fuel (items ++ [.range a b]) after
        | _, _ => readSet setting fuel (items ++ [asItem low, .range 45 45, asItem high]) after
      | _ => readSet setting fuel (items ++ [asItem low]) rest

/-! ## 6. Quantifiers -/

/-- The largest count; every larger one is taken for unbounded. -/
def countLimit : Nat := 2147483647

/-- A count of rounds, cut off at the limit. -/
def readCount (t : Text) : Nat × Text :=
  let (digits, rest) := Decimal.takeDigits t
  (min (Text.digitsValue digits) countLimit, rest)

/-- The bounds between braces, given what follows the opening one. -/
def readInterval? (t : Text) : Option (Nat × Nat × Text) :=
  if !(t.head?.any CodeUnit.isDigit) then none
  else
    let (least, rest) := readCount t
    match rest with
    | 125 :: after => some (least, least, after)
    | 44 :: 125 :: after => some (least, countLimit, after)
    | 44 :: more =>
      let (most, rest) := readCount more
      match rest with
      | 125 :: after => some (least, most, after)
      | _ => none
    | _ => none

/-- The quantifier at the front of a text, if there is one. -/
def readQuantifier? : Text → Option (Nat × Nat × Text)
  | [] => none
  | u :: rest =>
    if u = 42 then some (0, countLimit, rest)
    else if u = 43 then some (1, countLimit, rest)
    else if u = 63 then some (0, 1, rest)
    else if u = 123 then readInterval? rest
    else none

/-- Puts the quantifier at the front of the text, if there is one, on a term whose
groups are those opened since `before`. A look behind takes none. -/
def quantify (before opened : Nat) (term : Term) (t : Text) : Except Fault (Term × Text) :=
  match readQuantifier? t with
  | none => .ok (term, t)
  | some (least, most, rest) =>
    -- the counts are compared after both were cut off at the limit
    if most < least then .error .countsOutOfOrder
    else
      let (greedy, rest) :=
        match rest with
        -- 63 behind a quantifier makes it lazy
        | 63 :: more => (false, more)
        | _ => (true, rest)
      match term with
      -- a look ahead may be repeated, a look behind may not
      | .look false _ _ => .error .invalidQuantifier
      | _ =>
        let bound := if most = countLimit then none else some most
        .ok (.loop least bound greedy (before + 1) (opened - before) term, rest)

/-! ## 7. Atoms that hold no other term -/

/-- An atom that is an escape, given what follows the backslash, and whether a
quantifier may follow it. -/
def readAtomEscape (setting : Setting) (enclosing : Enclosing) : Text →
    Except Fault (Term × Bool × Text)
  | [] => .error .escapeAtEnd
  | e :: rest =>
    let plain :=
      (readUnitEscape setting false (e :: rest)).map fun (u, more) => (Term.unit u, true, more)
    if e = unit 'b' then .ok (.boundary true, false, rest)
    else if e = unit 'B' then .ok (.boundary false, false, rest)
    -- a number of a group that exists is a reference, any other one escapes a unit
    else if 49 ≤ e && e ≤ 57 then
      let (digits, after) := Decimal.takeDigits (e :: rest)
      let index := Text.digitsValue digits
      if index ≤ setting.groups && index ≤ 65535 then
        -- a reference into its own group matches nothing more
        .ok (if enclosing.indices.contains index then .empty else .reference index, true, after)
      else plain
    else if e = unit 'k' && setting.named then
      match rest with
      | 60 :: more => do
        let (name, after) ← readName (more.length + 1) true more
        return (if enclosing.names.contains name then .empty else .namedReference name, true, after)
      | _ => .error .referenceWithoutName
    else
      match classEscape? e with
      | some item => .ok (.set false [item], true, rest)
      | none => plain

/-- An atom that is neither a group nor an end of an alternative. -/
def readAtom (setting : Setting) (enclosing : Enclosing) : Text → Except Fault (Term × Bool × Text)
  | [] => .ok (.empty, false, [])
  | u :: rest =>
    -- 42, 43 and 63 are the quantifiers
    if u = 42 || u = 43 || u = 63 then .error .nothingToRepeat
    else if u = 94 then .ok (if setting.multiline then .lineStart else .textStart, false, rest)
    else if u = 36 then .ok (if setting.multiline then .lineEnd else .textEnd, false, rest)
    else if u = 46 then .ok (.any, true, rest)
    else if u = 91 then
      let (negated, inner) :=
        match rest with
        | 94 :: more => (true, more)
        | _ => (false, rest)
      (readSet setting (inner.length + 1) [] inner).map fun (items, after) =>
        (.set negated items, true, after)
    else if u = 92 then readAtomEscape setting enclosing rest
    else if u = 123 && (readInterval? rest).isSome then .error .nothingToRepeat
    else .ok (.unit u, true, rest)

/-- How a group begins. -/
inductive Opening
  | plain
  | look (ahead positive : Bool)
  | capture (name : Option Text)

/-- The beginning of a group, given what follows the parenthesis. -/
def readOpening : Text → Except Fault (Opening × Text)
  -- after 63: 58 groups, 61 and 33 look ahead, 60 looks behind or names
  | 63 :: rest =>
    match rest with
    | 58 :: more => .ok (.plain, more)
    | 61 :: more => .ok (.look true true, more)
    | 33 :: more => .ok (.look true false, more)
    | 60 :: 61 :: more => .ok (.look false true, more)
    | 60 :: 33 :: more => .ok (.look false false, more)
    | 60 :: more =>
      (readName (more.length + 1) true more).map fun (name, after) => (.capture (some name), after)
    | _ => .error .invalidGroup
  | t => .ok (.capture none, t)

/-! ## 8. Alternatives and groups -/

mutual

/-- Alternatives up to a closing parenthesis or the end. Two calls out of three
take a unit, so three times the length is fuel enough. -/
def readChoice (setting : Setting) :
    Nat → Enclosing → Progress → Text → Except Fault (Term × Progress × Text)
  | 0, _, _, _ => .error .unterminatedGroup
  | fuel + 1, enclosing, progress, t =>
    match readSequence setting fuel enclosing progress t with
    | .error fault => .error fault
    -- 124 is the bar between alternatives
    | .ok (first, progress, 124 :: rest) =>
      match readChoice setting fuel enclosing progress rest with
      | .error fault => .error fault
      | .ok (second, progress, after) => .ok (.choice first second, progress, after)
    | .ok other => .ok other

/-- Terms up to the end of their alternative. -/
def readSequence (setting : Setting) :
    Nat → Enclosing → Progress → Text → Except Fault (Term × Progress × Text)
  | 0, _, _, _ => .error .unterminatedGroup
  | _ + 1, _, progress, [] => .ok (.empty, progress, [])
  | fuel + 1, enclosing, progress, u :: t =>
    -- 41 closes the group
    if u = 124 || u = 41 then .ok (.empty, progress, u :: t)
    else
      match readTerm setting fuel enclosing progress (u :: t) with
      | .error fault => .error fault
      | .ok (first, progress, rest) =>
        match readSequence setting fuel enclosing progress rest with
        | .error fault => .error fault
        | .ok (second, progress, after) => .ok (.sequence first second, progress, after)

/-- One term with its quantifier. -/
def readTerm (setting : Setting) :
    Nat → Enclosing → Progress → Text → Except Fault (Term × Progress × Text)
  | 0, _, _, _ => .error .unterminatedGroup
  | _ + 1, _, progress, [] => .ok (.empty, progress, [])
  | fuel + 1, enclosing, progress, u :: t =>
    if u = 40 then
      match readOpening t with
      | .error fault => .error fault
      | .ok (opening, inner) =>
        match readGroup setting fuel opening enclosing progress inner with
        | .error fault => .error fault
        | .ok (group, after, rest) =>
          (quantify progress.opened after.opened group rest).map fun (term, rest) =>
            (term, after, rest)
    else
      match readAtom setting enclosing (u :: t) with
      | .error fault => .error fault
      | .ok (atom, true, rest) =>
        (quantify progress.opened progress.opened atom rest).map fun (term, rest) =>
          (term, progress, rest)
      | .ok (atom, false, rest) => .ok (atom, progress, rest)

/-- The inside of a group and its closing parenthesis. A name is taken when its
group closes, so an inner group of the same name comes first. -/
def readGroup (setting : Setting) :
    Nat → Opening → Enclosing → Progress → Text → Except Fault (Term × Progress × Text)
  | 0, _, _, _, _ => .error .unterminatedGroup
  | fuel + 1, opening, enclosing, progress, t =>
    let index := progress.opened + 1
    let (inside, started) :=
      match opening with
      | .capture name =>
        (⟨index :: enclosing.indices, name.toList ++ enclosing.names⟩,
          { progress with opened := index })
      | _ => (enclosing, progress)
    match readChoice setting fuel inside started t with
    | .error fault => .error fault
    | .ok (body, after, 41 :: rest) =>
      match opening with
      | .plain => .ok (body, after, rest)
      | .look ahead positive => .ok (.look ahead positive body, after, rest)
      | .capture none => .ok (.capture index body, after, rest)
      | .capture (some name) =>
        if after.names.any (fun n => n.1 = name) then .error .duplicateGroupName
        else .ok (.capture index body, { after with names := (name, index) :: after.names }, rest)
    | .ok _ => .error .unterminatedGroup

end

/-! ## 9. The whole text -/

/-- Replaces the references by name with references by number. -/
def Term.resolve (names : List (Text × Nat)) : Term → Option Term
  | sequence first second => return .sequence (← first.resolve names) (← second.resolve names)
  | choice first second => return .choice (← first.resolve names) (← second.resolve names)
  | capture index body => return .capture index (← body.resolve names)
  | look ahead positive body => return .look ahead positive (← body.resolve names)
  | loop least most greedy first count body =>
    return .loop least most greedy first count (← body.resolve names)
  | namedReference name => (names.lookup name).map .reference
  | other => some other

/-- The regular expression that a text spells. -/
def read (multiline : Bool) (t : Text) : Except Fault Pattern :=
  let (groups, named) := countGroups false t
  match readChoice ⟨multiline, groups, named⟩ (3 * t.length + 3) ⟨[], []⟩ ⟨0, []⟩ t with
  | .error fault => .error fault
  | .ok (term, progress, []) =>
    match term.resolve progress.names with
    | some term => .ok ⟨term, progress.opened⟩
    | none => .error .unknownGroupName
  | .ok _ => .error .unmatchedParenthesis

/-- The message for a text that is no regular expression. -/
def Fault.message (source : Text) (fault : Fault) : Text :=
  units "Invalid regular expression: /" ++ source ++ units "/: " ++ fault.reason

end PromptTemplate.Pattern
