/-
`Text.lean` -- text as a sequence of 16-bit code units.

Positions, columns, lengths and the sorting order of the template language all
count 16-bit units, and a unit that is half of a surrogate pair may stand alone.
A list of units keeps every such text exactly, so readers are structural
recursions that return what is left, and `String` appears only where text enters
or leaves the program (`units`, `Text.toString`).
-/

set_option autoImplicit false

namespace PromptTemplate

/-- One 16-bit unit of text. -/
abbrev CodeUnit := UInt16

/-- Text as its code units, in order. -/
abbrev Text := List CodeUnit

/-! ## 1. Units and characters -/

/-- The units of one character: itself, or a high and a low surrogate. -/
def unitsOfChar (c : Char) : Text :=
  if c.toNat < 0x10000 then [c.toNat.toUInt16]
  else [(0xD800 + (c.toNat - 0x10000) / 0x400).toUInt16,
    (0xDC00 + (c.toNat - 0x10000) % 0x400).toUInt16]

/-- The code units of a string. -/
def units (s : String) : Text := s.toList.flatMap unitsOfChar

/-- The unit of a character of the first plane. -/
def unit (c : Char) : CodeUnit := c.toNat.toUInt16

/-- A unit that opens a surrogate pair. -/
def CodeUnit.isHigh (u : CodeUnit) : Bool := 0xD800 ≤ u && u ≤ 0xDBFF

/-- A unit that closes a surrogate pair. -/
def CodeUnit.isLow (u : CodeUnit) : Bool := 0xDC00 ≤ u && u ≤ 0xDFFF

/-- The code point that a surrogate pair stands for. -/
def pairPoint (high low : CodeUnit) : Nat :=
  0x10000 + (high.toNat - 0xD800) * 0x400 + (low.toNat - 0xDC00)

namespace Text

/-- The code points of a text; a lone surrogate counts as its own number. -/
def points : Text → List Nat
  | [] => []
  | [u] => [u.toNat]
  | u :: v :: rest =>
    if u.isHigh && v.isLow then pairPoint u v :: points rest else u.toNat :: points (v :: rest)

/-- The string of a text; a lone surrogate becomes U+FFFD. -/
def toString (t : Text) : String :=
  String.ofList (t.points.map fun p => if 0xD800 ≤ p && p ≤ 0xDFFF then Char.ofNat 0xFFFD
    else Char.ofNat p)

/-- Replaces each lone surrogate by U+FFFD, as writing the text to a file does. -/
def wellFormed : Text → Text
  | [] => []
  | [u] => if u.isHigh || u.isLow then [0xFFFD] else [u]
  | u :: v :: rest =>
    if u.isHigh && v.isLow then u :: v :: wellFormed rest
    else if u.isHigh || u.isLow then 0xFFFD :: wellFormed (v :: rest)
    else u :: wellFormed (v :: rest)

/-! ## 2. Classes of units -/

end Text

/-- White space: the blanks of ASCII, the space separators of Unicode, the two
line and paragraph separators and the byte order mark. -/
def CodeUnit.isBlank (u : CodeUnit) : Bool :=
  (9 ≤ u && u ≤ 13) || u == 0x20 || u == 0xA0 || u == 0x1680 || (0x2000 ≤ u && u ≤ 0x200A)
    || u == 0x2028 || u == 0x2029 || u == 0x202F || u == 0x205F || u == 0x3000 || u == 0xFEFF

/-- The four units that end a line. -/
def CodeUnit.isLineTerminator (u : CodeUnit) : Bool :=
  u == 10 || u == 13 || u == 0x2028 || u == 0x2029

/-- A decimal digit of ASCII. -/
def CodeUnit.isDigit (u : CodeUnit) : Bool := 48 ≤ u && u ≤ 57

/-- A letter of ASCII. -/
def CodeUnit.isLetter (u : CodeUnit) : Bool := (65 ≤ u && u ≤ 90) || (97 ≤ u && u ≤ 122)

/-- Letters of ASCII in lower case; every other unit is kept. -/
def CodeUnit.toLower (u : CodeUnit) : CodeUnit := if 65 ≤ u && u ≤ 90 then u + 32 else u

/-- Letters of ASCII in upper case; every other unit is kept. -/
def CodeUnit.toUpper (u : CodeUnit) : CodeUnit := if 97 ≤ u && u ≤ 122 then u - 32 else u

namespace Text

/-! ## 3. Trimming -/

/-- The text without its leading blanks. -/
def trimStart (t : Text) : Text := t.dropWhile CodeUnit.isBlank

/-- The text without its trailing blanks. -/
def trimEnd : Text → Text
  | [] => []
  | u :: rest =>
    match trimEnd rest with
    | [] => if u.isBlank then [] else [u]
    | kept => u :: kept

/-- The text without blanks at either end. -/
def trim (t : Text) : Text := (trimStart t).trimEnd

/-! ## 4. Searching and cutting -/

/-- Whether `t` begins with `token`. -/
def startsWith (t token : Text) : Bool := token.isPrefixOf t

/-- Whether `t` ends with `token`. -/
def endsWith (t token : Text) : Bool := token.isSuffixOf t

/-- The text before the first occurrence of `token` and the text after it. -/
def cut (token : Text) : Text → Option (Text × Text)
  | [] => if token.isEmpty then some ([], []) else none
  | u :: rest =>
    if token.isPrefixOf (u :: rest) then some ([], (u :: rest).drop token.length)
    else (cut token rest).map fun (before, after) => (u :: before, after)

/-- Whether `token` occurs in the text. -/
def includes (t token : Text) : Bool := (cut token t).isSome

/-- The pieces between the occurrences of one unit; never empty. -/
def splitAt (separator : CodeUnit) : Text → List Text
  | [] => [[]]
  | u :: rest =>
    if u = separator then [] :: splitAt separator rest
    else
      match splitAt separator rest with
      | [] => [[u]]
      | piece :: pieces => (u :: piece) :: pieces

/-- The pieces put together, with `separator` between neighbours. -/
def join (separator : Text) : List Text → Text
  | [] => []
  | [piece] => piece
  | piece :: pieces => piece ++ separator ++ join separator pieces

/-! ## 5. Order -/

/-- The order of texts by code unit, a proper beginning first. -/
def le : Text → Text → Bool
  | [], _ => true
  | _ :: _, [] => false
  | u :: s, v :: t => if u = v then le s t else u < v

/-- The texts in ascending order; equal ones stay. -/
def sort (ts : List Text) : List Text := ts.mergeSort le

/-! ## 6. Natural numbers -/

/-- The decimal digits of a natural number. -/
def ofNat (n : Nat) : Text := (Nat.toDigits 10 n).map unit

/-- The value of a run of decimal digits, read from the left. -/
def digitsValue (t : Text) : Nat := t.foldl (fun n u => 10 * n + (u.toNat - 48)) 0

/-- The text with blanks appended until it has `width` units. -/
def padEnd (width : Nat) (t : Text) : Text := t ++ List.replicate (width - t.length) 0x20

/-- The decimal digits of `n` with zeros in front until there are `width`. -/
def paddedNat (width n : Nat) : Text :=
  List.replicate (width - (ofNat n).length) 48 ++ ofNat n

end Text

end PromptTemplate
