/-
`Reader.lean` -- reading templates.

A template is a run of chunks. A block opened by the variant delimiter is tried
as a comment, a probability, a condition and a variant, in this order: only a
number may precede `::` in a probability, and no number may in a condition, so
the order decides what a block is. The productions are written over the two
recursive calls that they make (`Inner`); `chunksWith` closes the circle. The depth of
blocks and the rounds of each loop are counted, and the length of the source bounds them.
-/
import PromptTemplate.Grammar
import PromptTemplate.Template.Cursor

set_option autoImplicit false

namespace PromptTemplate.Template

/-! ## 1. Surroundings -/

/-- Where text stands. Inside blocks the separators and the closing delimiters end
it, and inside the path of a wildcard parentheses do too. -/
inductive Context
  | prompt
  | block
  | path
  deriving DecidableEq, Repr

/-- What is read, by which delimiters, and how nodes are labelled. -/
structure Setting where
  grammar : Grammar
  origin : Origin
  base : List Nat
  source : Text

/-- The recursive calls of the productions: the chunks of a block, and the value of
an inline variable under the place where its labels begin. -/
structure Inner where
  block : Reader Command
  value : List Nat → Text → Except ParseError Command

/-- The label of a node that begins at a cursor. -/
def Setting.label (s : Setting) (c : Cursor) : Label := ⟨s.base ++ [c.position], s.origin⟩

/-- Fails with a fault at an offset. -/
def failAt {α : Type} (s : Setting) (position : Nat) (fault : SyntaxFault) : Reader α :=
  Reader.fail (.malformed (.ofPosition s.source position fault))

/-- A node that was made, or the failure that its refusal is. -/
def build (made : Except BuildError Command) : Reader Command :=
  match made with
  | .ok command => Reader.ok command
  | .error error => Reader.fail (.refused error)

/-! ## 2. Comments -/

/-- Whether a comment up to the end of the line begins: a number sign, or two
slashes that no colon precedes. -/
def atLineComment (previous : Option CodeUnit) (rest : Text) : Bool :=
  -- 35 is the number sign, 58 the colon of an address
  rest.head? == some 35 || (rest.startsWith (units "//") && previous != some 58)

/-- The length of the closed comment that begins here, if one does. -/
def blockComment? (rest : Text) : Option Nat :=
  if rest.startsWith (units "/*") then (Text.cut (units "*/") (rest.drop 2)).map fun parts =>
    parts.1.length + 4
  else none

/-- The place after the comments that stand here, one after another, if they are fewer
than the rounds. -/
def afterComments? : (rounds : Nat) → Cursor → Option Cursor
  | 0, _ => none
  | rounds + 1, c =>
    if atLineComment c.previous c.rest then afterComments? rounds (c.skipWhile (· != 10))
    else
      match blockComment? c.rest with
      | some length => afterComments? rounds (c.advance length)
      | none => some c

/-- Skips comments, and tells whether there were any. -/
def skipComments : Reader Bool := fun c f =>
  match afterComments? (c.rest.length + 1) c with
  | some after => .accepted (c.position < after.position) after f
  | none => .failed .exhausted

/-! ## 3. Text -/

/-- Whether plain text ends here. -/
def endsText (g : Grammar) (context : Context) (previous : Option CodeUnit) (rest : Text) : Bool :=
  if atLineComment previous rest || (blockComment? rest).isSome then true
  else if g.openers.any fun opener => rest.startsWith opener then true
  else if context = .prompt then false
  -- 124 is the bar; separators and closing delimiters end text in blocks and in paths
  else if rest.head? = some 124 || rest.startsWith (units "$$") || rest.startsWith (units "::") then
    true
  else if g.closers.any fun closer => rest.startsWith closer then true
  else context = .path && (rest.head? = some 40 || rest.head? = some 41)

/-- The text from here to where it ends. -/
def plainText (g : Grammar) (context : Context) : Option CodeUnit → Text → Text
  | _, [] => []
  | previous, u :: rest =>
    if endsText g context previous (u :: rest) then [] else u :: plainText g context (some u) rest

/-- The runs of text that only comments keep apart. -/
def textRuns (g : Grammar) (context : Context) : (rounds : Nat) → Reader (List Text)
  | 0 => Reader.fail .exhausted
  | rounds + 1 => do
    let c ← Reader.here
    let run := plainText g context c.previous c.rest
    if run.isEmpty then return []
    Reader.moveTo (c.advance run.length)
    -- a path is read run by run, and no comment stands inside it
    if context = .path then return [run]
    if ← skipComments then return run :: (← textRuns g context rounds)
    return [run]

/-- Plain text: its runs, with a blank between them. -/
def text (s : Setting) (context : Context) : Reader Command := do
  let c ← Reader.here
  let runs ← textRuns s.grammar context (c.rest.length + 1)
  if runs.isEmpty then
    Reader.expect (units "text")
    Reader.reject
  else return .literal (Text.join (units " ") runs)

/-! ## 4. Small parts -/

/-- Drops the blanks at the end of a block's operand, where they are layout. -/
def trimOperand : Command → Command
  | .literal t => .literal t.trimEnd
  | .sequence children =>
    match children.getLast? with
    | some (.literal t) =>
      let trimmed := t.trimEnd
      .ofList (children.dropLast ++ if trimmed.isEmpty then [] else [.literal trimmed])
    | _ => .sequence children
  | other => other

/-- An operand of a block, without layout at either end. -/
def operand (inner : Inner) : Reader Command := do
  Reader.skipBlanks
  return trimOperand (← inner.block)

/-- A number without sign and exponent at the front of a text: digits with a point
among or around them. -/
def splitReal? (t : Text) : Option (Text × Text) :=
  let (whole, rest) := Decimal.takeDigits t
  match rest with
  -- 46 is the point
  | 46 :: more =>
    let (fraction, after) := Decimal.takeDigits more
    if whole.isEmpty && fraction.isEmpty then none else some (whole ++ 46 :: fraction, after)
  | _ => if whole.isEmpty then none else some (whole, rest)

/-- Takes a number, if one is here. -/
def real : Reader Text := fun c f =>
  match splitReal? c.rest with
  | some (taken, _) => .accepted taken (c.advance taken.length) f
  | none => .rejected f

/-- Takes the marker of a sampling method, if one is here. -/
def sampler : Reader (Option Sampling) := fun c f =>
  match c.rest.head?.bind Sampling.ofMarker? with
  | some method => .accepted (some method) (c.advance 1) f
  | none => .accepted none c f

/-- The name of a variable. -/
def variableName : Reader Text := do
  let c ← Reader.here
  if c.rest.head?.any beginsVariable then Reader.takeWhile continuesVariable
  else
    Reader.expect (units "variable name")
    Reader.reject

/-- A separator made of punctuation loses its padding; one with words keeps it. -/
def normalizeSeparator (raw : Text) : Text :=
  let trimmed := raw.trim
  if !trimmed.isEmpty && !trimmed.hasAlphanumeric then trimmed else raw

/-! ## 5. Comment and probability blocks -/

/-- The text of a comment block: up to an asterisk or a delimiter of variants. -/
def commentText (g : Grammar) : Text → Text
  | [] => []
  | u :: rest =>
    -- 42 is the asterisk
    if u = 42 || Text.startsWith (u :: rest) g.variantStart ||
      Text.startsWith (u :: rest) g.variantEnd then []
    else u :: commentText g rest

/-- A comment between asterisks. -/
def commentBlock (s : Setting) : Reader Command := do
  Reader.accept s.grammar.variantStart
  Reader.skipBlanks
  if ← Reader.tryAccept (units "*") then
    let c ← Reader.here
    let content := commentText s.grammar c.rest
    Reader.moveTo (c.advance content.length)
    Reader.accept (units "*")
    Reader.skipBlanks
    Reader.accept s.grammar.variantEnd
    return .comment content
  else Reader.reject

/-- A number before `::` and the value that it governs. -/
def probabilityBlock (s : Setting) (inner : Inner) : Reader Command := do
  let start ← Reader.here
  Reader.accept s.grammar.variantStart
  Reader.skipBlanks
  -- reading a number notes nothing by itself: the number as a whole is what is expected
  match ← Reader.attempt real with
  | none =>
    Reader.expect (units "number")
    Reader.reject
  | some chance =>
    Reader.accept (units "::")
    let value ← operand inner
    Reader.skipBlanks
    Reader.accept s.grammar.variantEnd
    build (Command.makeProbability (s.label start) (Number.ofText chance) value none)

/-! ## 6. Condition blocks -/

/-- Whether a text reads as a number, so that it can be no pattern. -/
def isNumberLike (t : Text) : Bool :=
  let unsigned :=
    match t with
    -- a sign in front, plus or minus
    | u :: rest => if u = 43 || u = 45 then rest else t
    | [] => t
  let lower := unsigned.map CodeUnit.toLower
  if lower = units "inf" || lower = units "infinity" || lower = units "nan" then true
  else
    match splitReal? unsigned with
    | some (_, rest) => (Decimal.exponent? rest).isSome
    | none => false

/-- Splits `name ~= pattern` into the name and the pattern. -/
def splitKey (t : Text) : Option Text × Text :=
  if t.head?.any beginsVariable then
    let afterName := t.dropWhile continuesVariable
    match Text.trimStart afterName with
    -- the two units between name and pattern, a tilde and an equals sign
    | 126 :: 61 :: pattern => (some (t.takeWhile continuesVariable), Text.trimStart pattern)
    | _ => (none, t)
  else (none, t)

/-- The text before `::`; none when a delimiter of variants or a bar comes first.
At the end of the source the text is all that is left. -/
def patternText? (g : Grammar) : Text → Option Text
  | [] => some []
  | u :: rest =>
    if Text.startsWith (u :: rest) (units "::") then some []
    else if Text.startsWith (u :: rest) g.variantStart ||
      -- a bar or a delimiter before the colons: the block is no condition
      Text.startsWith (u :: rest) g.variantEnd || u = 124 then none
    else (patternText? g rest).map (u :: ·)

/-- A pattern up to its `::`. -/
def pattern (s : Setting) : Reader Text := do
  let c ← Reader.here
  match patternText? s.grammar c.rest with
  | none => Reader.reject
  | some raw =>
    Reader.moveTo (c.advance raw.length)
    Reader.accept (units "::")
    let trimmed := raw.trim
    if trimmed.isEmpty || isNumberLike trimmed then Reader.reject else return trimmed

/-- A pattern and the value that it governs. -/
def branch (s : Setting) (inner : Inner) : Reader Command.BranchInput := do
  let (key, source) := splitKey (← pattern s)
  return ⟨key, source, ← operand inner⟩

/-- The further branches, up to the value for when none holds. -/
def moreBranches (s : Setting) (inner : Inner) : (rounds : Nat) →
    Reader (List Command.BranchInput × Command)
  | 0 => Reader.fail .exhausted
  | rounds + 1 => do
    if ← Reader.tryAccept (units "|") then
      -- a bar that no pattern follows stands before the value for when none holds
      let next ← Reader.attempt do
        Reader.skipBlanks
        branch s inner
      match next with
      | none => return ([], ← operand inner)
      | some next =>
        let (rest, otherwise) ← moreBranches s inner rounds
        return (next :: rest, otherwise)
    else return ([], .literal [])

/-- Patterns with their values, the first that holds deciding. -/
def conditionBlock (s : Setting) (inner : Inner) : Reader Command := do
  Reader.accept s.grammar.variantStart
  let start ← Reader.here
  let first ← branch s inner
  let (rest, otherwise) ← moreBranches s inner (start.rest.length + 1)
  Reader.skipBlanks
  Reader.accept s.grammar.variantEnd
  -- the expressions are compiled here, and a bad one is reported behind the block's delimiter
  match Command.makeCondition (first :: rest) otherwise with
  | .ok command => return command
  | .error error => failAt s start.position (.pattern error)

/-! ## 7. Variant blocks -/

/-- The largest natural number below which every one is exact. -/
def boundLimit : Nat := 9007199254740991

/-- The digits of the upper bound; without a hyphen they are those of the lower one. -/
def upperDigits (lower : Text) : Reader Text := do
  if ← Reader.tryAccept (units "-") then Reader.takeWhile CodeUnit.isDigit else return lower

/-- The separator behind the bounds, as it is written. -/
def rawSeparator (s : Setting) : Reader Text := do
  let stops := units "$" ++ s.grammar.variantStart ++ s.grammar.variantEnd
  let raw ← Reader.takeWhile fun u => !stops.contains u
  if raw.isEmpty then Reader.reject
  else
    Reader.accept (units "$$")
    return raw

/-- The bounds and the separator before the options. -/
def bounds (s : Setting) : Reader (Option Nat × Option Nat × Option Text) := do
  let start ← Reader.here
  let lower ← Reader.takeWhile CodeUnit.isDigit
  let upper ← upperDigits lower
  -- without any digit these are options, not bounds
  if lower.isEmpty && upper.isEmpty then Reader.reject
  else
    Reader.accept (units "$$")
    let bound (digits : Text) : Option Nat :=
      if digits.isEmpty then none else some (Text.digitsValue digits)
    let least := bound lower
    let most := bound upper
    if least.any (boundLimit < ·) || most.any (boundLimit < ·) then
      failAt s start.position .boundTooLarge
    else
      -- a text that no second pair of signs closes belongs to the first option
      let separator ← Reader.attempt (rawSeparator s)
      return (least, most, separator.map normalizeSeparator)

/-- The weight before an option, if one is written. -/
def weight (s : Setting) (start : Cursor) : Reader Number := do
  let digits ← real
  if ← Reader.tryAccept (units "::") then
    let value := Number.ofText digits
    -- digits without an exponent are finite unless they overflow
    match value with
    | .finite _ => return value
    | _ => failAt s start.position .weightTooLarge
  else Reader.reject

/-- One option. -/
def option (s : Setting) (inner : Inner) : Reader (Option Number × Command) := do
  Reader.skipBlanks
  let start ← Reader.here
  let weight ← Reader.attempt (weight s start)
  return (weight, ← operand inner)

/-- The options after the first, each behind a bar. -/
def moreOptions (s : Setting) (inner : Inner) : (rounds : Nat) →
    Reader (List (Option Number × Command))
  | 0 => Reader.fail .exhausted
  | rounds + 1 => do
    if ← Reader.tryAccept (units "|") then
      let next ← option s inner
      return next :: (← moreOptions s inner rounds)
    else return []

/-- Options to choose from. -/
def variantBlock (s : Setting) (inner : Inner) : Reader Command := do
  let start ← Reader.here
  Reader.accept s.grammar.variantStart
  Reader.skipBlanks
  let sampling ← sampler
  let declared ← Reader.attempt (bounds s)
  let first ← option s inner
  let rest ← moreOptions s inner (start.rest.length + 1)
  Reader.skipBlanks
  -- the failure is noted as a missing bar, next to the delimiter that was tried
  match ← Reader.attempt (Reader.accept s.grammar.variantEnd) with
  | none =>
    Reader.expect (units "|").quote
    Reader.reject
  | some _ =>
    let (least, most, separator) := declared.getD (none, none, none)
    build (Command.makeVariant (s.label start) (first :: rest)
      ⟨least.map Number.ofNat, most.map Number.ofNat, separator, sampling⟩)

/-! ## 8. Variables and wraps -/

/-- The binding of a variable. -/
def assignment (s : Setting) (inner : Inner) : Reader Command := do
  Reader.accept s.grammar.variableStart
  Reader.skipBlanks
  let name ← variableName
  Reader.skipBlanks
  let preserve ← Reader.tryAccept (units "?")
  Reader.accept (units "=")
  let immediate ← Reader.tryAccept (units "!")
  let value ← operand inner
  Reader.skipBlanks
  Reader.accept s.grammar.variableEnd
  build (Command.makeAssignment name value (!preserve) immediate)

/-- The default of a variable, if one is written. -/
def fallback (inner : Inner) : Reader (Option Command) := do
  if ← Reader.tryAccept (units ":") then return some (← operand inner) else return none

/-- The reading of a variable. In the path of a wildcard an unbound variable without
a default stands for its own name. -/
def access (s : Setting) (inner : Inner) (inPath : Bool) : Reader Command := do
  Reader.accept s.grammar.variableStart
  Reader.skipBlanks
  let name ← variableName
  Reader.skipBlanks
  let fallback ← fallback inner
  Reader.skipBlanks
  Reader.accept s.grammar.variableEnd
  -- in a path the variable's own name is what it falls back to
  build (Command.makeAccess name (if inPath then some (fallback.getD (.literal name))
    else fallback))

/-- A wrapper and what it is put around. -/
def wrapBlock (s : Setting) (inner : Inner) : Reader Command := do
  Reader.accept s.grammar.wrapStart
  let wrapper ← operand inner
  Reader.skipBlanks
  Reader.accept (units "$$")
  let wrapped ← operand inner
  Reader.skipBlanks
  Reader.accept s.grammar.wrapEnd
  return .wrap wrapper wrapped

/-! ## 9. Wildcards -/

/-- A part of the path of a wildcard. -/
def pathChunk (s : Setting) (inner : Inner) : Reader Command :=
  Reader.firstOf [access s inner true, variantBlock s inner, text s .path]

/-- The text between the parentheses of a wildcard. -/
def bindings : Reader Text := do
  Reader.skipBlanks
  Reader.accept (units "(")
  -- up to the first closing parenthesis, 41, whatever opened in between
  let content ← Reader.takeWhile (· != 41)
  if content.isEmpty then Reader.reject
  else
    Reader.accept (units ")")
    return content

/-- Splits `name=value` at the first equals sign; the value is empty without one. -/
def splitBinding (pair : Text) : Text × Text :=
  match Text.cut (units "=") pair with
  | some (name, value) => (name.trim, value.trim)
  | none => (pair.trim, [])

/-- Inline variables from their pairs. `index` counts the pairs, which are kept
apart by it in the labels of their values. -/
def inlineVariables (s : Setting) (inner : Inner) (position : Nat) :
    (index : Nat) → InlineRecord → List Text → Except ParseError InlineRecord
  | _, record, [] => .ok record
  | index, record, pair :: pairs =>
    let (name, value) := splitBinding pair
    if !isVariableName name then
      .error (.malformed (.ofPosition s.source position (.inlineName name)))
    else
      -- the value is read as a template of its own, so its positions are those of the value
      match inner.value (s.base ++ [position, index]) value with
      | .error error => .error error
      | .ok command =>
        match record.set name command with
        | none => .error (.readOnly name record.title)
        | some record => inlineVariables s inner position (index + 1) record pairs

/-- A wildcard between its marks. -/
def wildcard (s : Setting) (inner : Inner) : Reader Command := do
  let start ← Reader.here
  Reader.accept s.grammar.wildcardWrap
  let sampling ← sampler
  let path ← Reader.many (pathChunk s inner) (start.rest.length + 1)
  if path.isEmpty then
    Reader.expect (units "wildcard name")
    Reader.reject
  else
    let bindingsStart ← Reader.here
    let content ← Reader.attempt bindings
    Reader.accept s.grammar.wildcardWrap
    -- pairs stand between commas
    let pairs := (content.map (Text.splitAt 44)).getD []
    match inlineVariables s inner bindingsStart.position 0 .empty pairs with
    | .error error => Reader.fail error
    | .ok record =>
      build (Command.makeWildcard (s.label start) (.rendered (.ofList path))
        record.entries sampling)

/-! ## 10. Chunks -/

/-- One chunk outside of paths. -/
def chunk (s : Setting) (inner : Inner) (context : Context) : Reader Command :=
  -- the order is the grammar's: what reads as a probability is no condition, and so on
  Reader.firstOf [commentBlock s, probabilityBlock s inner, conditionBlock s inner,
    assignment s inner,
    access s inner false, wrapBlock s inner, variantBlock s inner, wildcard s inner, text s context]

/-- Chunks as far as they go, comments before each skipped. -/
def chunks (s : Setting) (inner : Inner) (context : Context) : (rounds : Nat) →
    Reader (List Command)
  | 0 => Reader.fail .exhausted
  | rounds + 1 => do
    let _ ← skipComments
    match ← Reader.attempt (chunk s inner context) with
    | none => return []
    | some next => return next :: (← chunks s inner context rounds)

/-- What is wrong with a source that was read up to a cursor: the furthest place
where something was missing, unless reading got beyond it. -/
def leftover (source : Text) (c : Cursor) (f : Furthest) : SyntaxError :=
  let position := max f.position c.position
  -- reading that got beyond the furthest noted place expected nothing there
  let expected := if position = f.position then f.expected else []
  .ofPosition source position (.unexpected expected source[position]?)

/-- Reads a whole source with a reader of its chunks. A source of letters and digits
without an opener is a literal without further ado. -/
def whole (g : Grammar) (reader : Text → Reader Command) (source : Text) :
    Except ParseError Command :=
  if source.isAlphanumeric && !(g.openers.any fun opener => source.includes opener) then
    .ok (.literal source)
  else
    match reader source (.start source) ⟨0, []⟩ with
    | .failed error => .error error
    | .rejected f => .error (.malformed (leftover source (.start source) f))
    | .accepted command c f =>
      -- comments may follow the last chunk
      match afterComments? (c.rest.length + 1) c with
      | none => .error .exhausted
      | some after =>
        if after.rest.isEmpty then .ok command else .error (.malformed (leftover source after f))

/-- The chunks of a template or of a block, `depth` blocks deep at most. -/
def chunksWith (g : Grammar) (origin : Origin) : (depth : Nat) → List Nat → Context → Text →
    Reader Command
  | 0, _, _, _ => Reader.fail .exhausted
  | depth + 1, base, context, source => do
    -- blocks share the labels and the source of their template, an inline value has its own
    let inner : Inner :=
      ⟨chunksWith g origin depth base .block source,
        fun base value => whole g (chunksWith g origin depth base .prompt) value⟩
    let c ← Reader.here
    return .ofList (← chunks ⟨g, origin, base, source⟩ inner context (c.rest.length + 1))

end Template

/-- The tree of a template. Every block opens with a delimiter, so it is nested no
deeper than the source is long. -/
def Grammar.parse (g : Grammar) (origin : Origin) (source : Text) : Except ParseError Command :=
  Template.whole g (Template.chunksWith g origin (source.length + 1) [] .prompt) source

end PromptTemplate
