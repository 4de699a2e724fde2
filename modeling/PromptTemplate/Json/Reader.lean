/-
`Reader.lean` -- reading the interchange format.

A reader takes a text and returns a value with what is left. When it fails it
keeps the rest of the text at the offending unit, which is all that the message
needs: the offset, the line and column, and a window of the source around it.
-/
import PromptTemplate.Json

set_option autoImplicit false

namespace PromptTemplate.Json

/-! ## 1. What can go wrong -/

/-- What was found to be wrong with the text. -/
inductive Fault
  | unexpected
  | nameOrBrace
  | quotedName
  | colon
  | commaOrBracket
  | commaOrBrace
  | unterminatedString
  | controlUnit
  | badEscape
  | badHexEscape
  | loneMinus
  | fraction
  | exponent
  | trailing
  deriving DecidableEq, Repr

/-- A fault and the text that was left where it was found. -/
structure ReadError where
  fault : Fault
  rest : Text

/-- Line and column, both from one, of the end of a text; a carriage return with a
line feed after it is one line end. -/
def lineColumn : Nat → Nat → Text → Nat × Nat
  | line, column, [] => (line, column)
  | line, column, [u] => if u = 10 || u = 13 then (line + 1, 1) else (line, column + 1)
  | line, column, u :: v :: rest =>
    -- 13 before 10 is one line end, counted at the 10
    if u = 13 && v = 10 then lineColumn line column (v :: rest)
    else if u = 10 || u = 13 then lineColumn (line + 1) 1 (v :: rest)
    else lineColumn line (column + 1) (v :: rest)

/-- Where the error is, in words. -/
def placeText (source rest : Text) : Text :=
  let position := source.length - rest.length
  let (line, column) := lineColumn 1 1 (source.take position)
  units " at position " ++ Text.ofNat position ++ units " (line " ++ Text.ofNat line
    ++ units " column " ++ Text.ofNat column ++ units ")"

/-- The source around an offset between quotes, ten units to each side, with dots
where it was cut. A short source is shown whole. -/
def window (source : Text) (position : Nat) : Text :=
  let length := source.length
  let between (low high : Nat) : Text :=
    units "\"" ++ (source.drop low).take (high - low) ++ units "\""
  if length < 21 then between 0 length
  else if position < 10 then between 0 (position + 10) ++ units "..."
  else if position < length - 10 then
    units "..." ++ between (position - 10) (position + 10) ++ units "..."
  else units "..." ++ between (position - 10) length

/-- Sources that are reported as a whole: the texts of common values that were
never written in this format. -/
def neverWritten : List Text :=
  [units "[object Object]", units "NaN", units "Infinity", units "undefined"]

/-- The message for a unit that can not stand where it does. -/
def unexpectedText (source rest : Text) : Text :=
  match rest with
  | [] => units "Unexpected end of JSON input"
  | u :: _ =>
    -- 34 is the quote and 45 the minus sign
    if u = 34 then units "Unexpected string in JSON" ++ placeText source rest
    else if u = 45 || u.isDigit then units "Unexpected number in JSON" ++ placeText source rest
    else if neverWritten.contains source then units "\"" ++ source ++ units "\" is not valid JSON"
    else
      units "Unexpected token '" ++ [u] ++ units "', "
        ++ window source (source.length - rest.length)
        ++ units " is not valid JSON"

/-- The message of an error in `source`. -/
def ReadError.message (source : Text) (e : ReadError) : Text :=
  let placed (what : String) : Text := units what ++ placeText source e.rest
  match e.fault with
  | .unexpected => unexpectedText source e.rest
  | .nameOrBrace => placed "Expected property name or '\x7d' in JSON"
  | .quotedName => placed "Expected double-quoted property name in JSON"
  | .colon => placed "Expected ':' after property name in JSON"
  | .commaOrBracket => placed "Expected ',' or ']' after array element in JSON"
  | .commaOrBrace => placed "Expected ',' or '\x7d' after property value in JSON"
  | .unterminatedString => placed "Unterminated string in JSON"
  | .controlUnit => placed "Bad control character in string literal in JSON"
  | .badEscape => placed "Bad escaped character in JSON"
  | .badHexEscape => placed "Bad Unicode escape in JSON"
  | .loneMinus => placed "No number after minus sign in JSON"
  | .fraction => placed "Unterminated fractional number in JSON"
  | .exponent => placed "Exponent part is missing a number in JSON"
  | .trailing => placed "Unexpected non-whitespace character after JSON"

/-- A value and the text after it, or an error. -/
abbrev Reading (α : Type) := Except ReadError (α × Text)

/-! ## 2. Strings -/

/-- The value of a hexadecimal digit. -/
def hexValue? (u : CodeUnit) : Option UInt16 := (Decimal.digitIn? 16 u).map Nat.toUInt16

/-- The unit that a single-letter escape stands for. -/
def escapeOf? (u : CodeUnit) : Option CodeUnit :=
  if u = 34 || u = 92 || u = 47 then some u
  else if u = unit 'b' then some 8
  else if u = unit 'f' then some 12
  else if u = unit 'n' then some 10
  else if u = unit 'r' then some 13
  else if u = unit 't' then some 9
  else none

/-- The rest of a text from the first unit that is no hexadecimal digit. -/
def afterHexDigits (t : Text) : Text := t.dropWhile fun u => (hexValue? u).isSome

/-- The body of a string after its opening quote; `read` is what came so far, the
last unit first. -/
def readString (read : Text) : Text → Reading Text
  | [] => .error ⟨.unterminatedString, []⟩
  -- 34 ends the string, 92 and 117 begin an escape of four digits
  | 34 :: rest => .ok (read.reverse, rest)
  | 92 :: 117 :: a :: b :: c :: d :: rest =>
    match hexValue? a, hexValue? b, hexValue? c, hexValue? d with
    | some a, some b, some c, some d => readString ((a * 4096 + b * 256 + c * 16 + d) :: read) rest
    | _, _, _, _ => .error ⟨.badHexEscape, afterHexDigits (a :: b :: c :: d :: rest)⟩
  | 92 :: 117 :: rest => .error ⟨.badHexEscape, afterHexDigits rest⟩
  | 92 :: e :: rest =>
    match escapeOf? e with
    | some u => readString (u :: read) rest
    | none => .error ⟨.badEscape, e :: rest⟩
  | [92] => .error ⟨.badEscape, []⟩
  | u :: rest => if u < 32 then .error ⟨.controlUnit, u :: rest⟩ else readString (u :: read) rest

/-! ## 3. Numbers and names -/

/-- One digit or more. -/
def readDigits (fault : Fault) (t : Text) : Reading Text :=
  match Decimal.takeDigits t with
  | ([], rest) => .error ⟨fault, rest⟩
  | taken => .ok taken

/-- The digits after a point, if there is one. -/
def readFraction : Text → Reading Text
  | 46 :: rest => readDigits .fraction rest
  | rest => .ok ([], rest)

/-- The exponent, if there is one. -/
def readExponent : Text → Reading Int
  | [] => .ok (0, [])
  | e :: rest =>
    if e = unit 'e' || e = unit 'E' then
      -- 45 and 43 are the signs
      let (negative, digits) :=
        match rest with
        | 45 :: more => (true, more)
        | 43 :: more => (false, more)
        | _ => (false, rest)
      (readDigits .exponent digits).map fun (ds, after) =>
        let value : Int := Text.digitsValue ds
        (if negative then -value else value, after)
    else .ok (0, e :: rest)

/-- The whole part: a zero alone, or digits that do not begin with one. -/
def readWhole : Text → Reading Text
  -- 48 is the zero, which no digit may follow
  | 48 :: u :: rest => if u.isDigit then .error ⟨.unexpected, u :: rest⟩ else .ok ([48], u :: rest)
  | t => readDigits .loneMinus t

/-- A number without its sign. -/
def readMagnitude (t : Text) : Except ReadError (Number × Text) := do
  let whole ← readWhole t
  let fraction ← readFraction whole.2
  let exponent ← readExponent fraction.2
  return (Decimal.scale (Text.digitsValue (whole.1 ++ fraction.1)) (exponent.1 - fraction.1.length),
    exponent.2)

/-- A number. -/
def readNumber : Text → Reading Number
  | 45 :: rest => (readMagnitude rest).map fun (n, after) => (n.neg, after)
  | t => readMagnitude t

/-- The rest of a name, unit by unit. -/
def readName (value : Json) : (name rest : Text) → Reading Json
  | [], rest => .ok (value, rest)
  | _ :: _, [] => .error ⟨.unexpected, []⟩
  | n :: name, u :: rest =>
    if u = n then readName value name rest else .error ⟨.unexpected, u :: rest⟩

/-! ## 4. Values -/

/-- Skips the four blanks of the format. -/
def skipBlanks (t : Text) : Text := t.dropWhile fun u => u = 32 || u = 9 || u = 10 || u = 13

mutual

/-- A value. Each call below takes at least one unit, so the length of the text is
fuel enough. -/
def readValue : Nat → Text → Reading Json
  | 0, t => .error ⟨.unexpected, t⟩
  | fuel + 1, t =>
    match skipBlanks t with
    | [] => .error ⟨.unexpected, []⟩
    | u :: rest =>
      -- 123 opens an object, 91 an array, 34 a string
      if u = 123 then
        match skipBlanks rest with
        | 125 :: after => .ok (.obj [], after)
        | inner => readMembers fuel .nameOrBrace [] inner
      else if u = 91 then
        match skipBlanks rest with
        | 93 :: after => .ok (.arr [], after)
        | inner => readItems fuel [] inner
      else if u = 34 then (readString [] rest).map fun (s, after) => (.str s, after)
      else if u = 45 || u.isDigit then (readNumber (u :: rest)).map fun (n, after) =>
        (.num n, after)
      -- the names are read letter by letter, so that the error is at the first wrong one
      else if u = unit 't' then readName (.bool true) (units "rue") rest
      else if u = unit 'f' then readName (.bool false) (units "alse") rest
      else if u = unit 'n' then readName .null (units "ull") rest
      else .error ⟨.unexpected, u :: rest⟩

/-- The items of an array up to its bracket; `read` holds the earlier ones, the
last first. -/
def readItems : Nat → List Json → Text → Reading Json
  | 0, _, t => .error ⟨.unexpected, t⟩
  | fuel + 1, read, t =>
    match readValue fuel t with
    | .error e => .error e
    | .ok (item, after) =>
      match skipBlanks after with
      -- 44 is the comma and 93 the closing bracket
      | 44 :: rest => readItems fuel (item :: read) rest
      | 93 :: rest => .ok (.arr (item :: read).reverse, rest)
      | other => .error ⟨.commaOrBracket, other⟩

/-- The members of an object up to its brace; `missing` is the fault when no name
follows. -/
def readMembers : Nat → Fault → List (Text × Json) → Text → Reading Json
  | 0, _, _, t => .error ⟨.unexpected, t⟩
  | fuel + 1, missing, read, t =>
    match skipBlanks t with
    | 34 :: inName =>
      match readString [] inName with
      | .error e => .error e
      | .ok (key, afterName) =>
        match skipBlanks afterName with
        -- 58 is the colon
        | 58 :: inValue =>
          match readValue fuel inValue with
          | .error e => .error e
          | .ok (value, after) =>
            match skipBlanks after with
            | 44 :: rest => readMembers fuel .quotedName (setMember key value read) rest
            -- 125 is the closing brace
            | 125 :: rest => .ok (.obj (setMember key value read), rest)
            | other => .error ⟨.commaOrBrace, other⟩
        | other => .error ⟨.colon, other⟩
    | other => .error ⟨missing, other⟩

end

/-- The value that a text holds. -/
def read (source : Text) : Except ReadError Json :=
  match readValue (source.length + 1) source with
  | .error e => .error e
  | .ok (value, rest) =>
    match skipBlanks rest with
    | [] => .ok value
    | other => .error ⟨.trailing, other⟩

end PromptTemplate.Json
