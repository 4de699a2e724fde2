/-
`Utf8.lean` -- text as bytes.

Writing replaces a surrogate that stands alone, and reading replaces every longest
run of bytes that begins a character and does not finish it, each by U+FFFD.
-/
import PromptTemplate.Text

set_option autoImplicit false

namespace PromptTemplate

/-- The bytes of a file. -/
abbrev Bytes := List UInt8

namespace Utf8

/-! ## 1. Writing -/

/-- A byte that continues a character, from the six bits at a place. -/
def tail (point place : Nat) : UInt8 := (0x80 + (point >>> (6 * place)) % 64).toUInt8

/-- The bytes of a code point. -/
def ofPoint (point : Nat) : Bytes :=
  if point < 0x80 then [point.toUInt8]
  else if point < 0x800 then [(0xC0 + point / 64).toUInt8, tail point 0]
  else if point < 0x10000 then [(0xE0 + point >>> 12).toUInt8, tail point 1, tail point 0]
  else [(0xF0 + point >>> 18).toUInt8, tail point 2, tail point 1, tail point 0]

/-- The bytes of a text. -/
def encode (t : Text) : Bytes := t.wellFormed.points.flatMap ofPoint

/-! ## 2. Reading -/

/-- The units of a code point. -/
def unitsOfPoint (point : Nat) : Text :=
  if point < 0x10000 then [point.toUInt16]
  else [(0xD800 + (point - 0x10000) / 0x400).toUInt16,
    (0xDC00 + (point - 0x10000) % 0x400).toUInt16]

/-- What stands for bytes that make no character. -/
def replacement : Text := [0xFFFD]

/-- A character of which a part was read: its bits so far, how many bytes are owed,
and the range of the next one. -/
structure Pending where
  bits : Nat
  owed : Nat
  lowest : UInt8
  highest : UInt8

/-- Reads the first byte of a character: the text that is finished by it, or what is
pending after it. -/
def first (byte : UInt8) : Text × Option Pending :=
  let b := byte.toNat
  if b < 0x80 then ([b.toUInt16], none)
  else if 0xC2 ≤ b ∧ b ≤ 0xDF then ([], some ⟨b - 0xC0, 1, 0x80, 0xBF⟩)
  else if 0xE0 ≤ b ∧ b ≤ 0xEF then
    ([], some ⟨b - 0xE0, 2, if b = 0xE0 then 0xA0 else 0x80, if b = 0xED then 0x9F else 0xBF⟩)
  else if 0xF0 ≤ b ∧ b ≤ 0xF4 then
    ([], some ⟨b - 0xF0, 3, if b = 0xF0 then 0x90 else 0x80, if b = 0xF4 then 0x8F else 0xBF⟩)
  else (replacement, none)

/-- Reads one more byte. One that does not continue what is pending ends it and
begins anew. -/
def next (pending : Option Pending) (byte : UInt8) : Text × Option Pending :=
  match pending with
  | none => first byte
  | some p =>
    if p.lowest ≤ byte ∧ byte ≤ p.highest then
      let bits := p.bits * 64 + (byte.toNat - 0x80)
      if p.owed = 1 then (unitsOfPoint bits, none) else ([], some ⟨bits, p.owed - 1, 0x80, 0xBF⟩)
    else
      let (text, pending) := first byte
      (replacement ++ text, pending)

/-- Reads bytes behind something pending. -/
def decodeFrom : Option Pending → Bytes → Text
  | none, [] => []
  | some _, [] => replacement
  | pending, byte :: bytes =>
    let (text, pending) := next pending byte
    text ++ decodeFrom pending bytes

/-- The text of some bytes. -/
def decode (bytes : Bytes) : Text := decodeFrom none bytes

end Utf8

end PromptTemplate
