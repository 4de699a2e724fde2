/-
`Quoted.lean` -- text between double quotes.

Quotes, backslashes and control units are escaped, and so is a surrogate that
stands alone, because it has no character of its own. Everything else is written
as it is.
-/
import PromptTemplate.Text

set_option autoImplicit false

namespace PromptTemplate.Text

/-- A hexadecimal digit in lower case. -/
def hexDigit (n : Nat) : CodeUnit := unit (Nat.digitChar n)

/-- The six units of a numbered escape. -/
def hexEscape (u : CodeUnit) : Text :=
  let n := u.toNat
  units "\\u" ++ [hexDigit (n / 4096), hexDigit (n / 256 % 16), hexDigit (n / 16 % 16),
    hexDigit (n % 16)]

/-- One unit as it stands between quotes, surrogates apart. -/
def escapeUnit (u : CodeUnit) : Text :=
  if u = 34 then units "\\\""
  else if u = 92 then units "\\\\"
  else if u = 8 then units "\\b"
  else if u = 9 then units "\\t"
  else if u = 10 then units "\\n"
  else if u = 12 then units "\\f"
  else if u = 13 then units "\\r"
  else if u < 32 then hexEscape u
  else [u]

/-- One unit that is not the first half of a pair. -/
def escapeSingle (u : CodeUnit) : Text :=
  if u.isHigh || u.isLow then hexEscape u else escapeUnit u

/-- What stands between the quotes. -/
def escaped : Text → Text
  | [] => []
  | [u] => escapeSingle u
  | u :: v :: rest =>
    if u.isHigh && v.isLow then u :: v :: escaped rest
    else escapeSingle u ++ escaped (v :: rest)

/-- The text between double quotes. -/
def quote (t : Text) : Text := 34 :: (escaped t ++ [34])

end PromptTemplate.Text
