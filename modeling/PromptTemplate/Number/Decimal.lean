/-
`Decimal.lean` -- numbers as decimal text.

Writing takes the fewest digits that read back as the same number; of the
candidates with that many digits the one nearest to the number, a tie going to
the even digit. The decimal point stays inside the text while the first digit
stands between 10^-7 and 10^21, and an exponent is written beyond. Reading
allows blanks around the number, the empty text for zero, an exponent, and the
three base marks `0x`, `0o` and `0b`.
-/
import PromptTemplate.Number.Binary64
import PromptTemplate.Text

set_option autoImplicit false

namespace PromptTemplate

namespace Decimal

/-- `10 ^ e` for any integer `e`. -/
def powerOfTen (e : Int) : Rat :=
  if 0 ≤ e then mkRat (Nat.pow 10 e.toNat) 1 else mkRat 1 (Nat.pow 10 (-e).toNat)

/-! ## 1. Writing -/

/-- How many digits stand before the decimal point of a positive rational; zero
or less when the first digit stands behind it. -/
def pointPosition (q : Rat) : Int :=
  let num := q.num.natAbs
  if q.den ≤ num then ((Nat.toDigits 10 (num / q.den)).length : Int)
  else
    let width := (Nat.toDigits 10 (q.den / num)).length
    -- the quotient of an exact power of ten has one digit more
    if num * Nat.pow 10 (width - 1) = q.den then 2 - (width : Int) else 1 - (width : Int)

/-- The multiple of `10 ^ place` that reads back as `q`, if one of its two
neighbours on that grid does; the nearer of the two if both do. -/
def neighbour? (q : Rat) (place : Int) : Option Nat :=
  let grid := powerOfTen place
  let low := (q / grid).floor.toNat
  let readsBack (m : Nat) : Bool := Binary64.round ((m : Rat) * grid) == .finite q
  -- when both read back, a tie goes to the even one
  match readsBack low, readsBack (low + 1) with
  | true, true =>
    let below := q - (low : Rat) * grid
    let above := ((low + 1 : Nat) : Rat) * grid - q
    if below < above then some low
    else if above < below then some (low + 1)
    else if low % 2 = 0 then some low else some (low + 1)
  | true, false => some low
  | false, true => some (low + 1)
  | false, false => none

/-- The fewest digits that read back as `q`, with the place of the last of them.
A rational off the binary grid has no such digits and is cut after seventeen. -/
def shortest (q : Rat) : Nat × Int :=
  let point := pointPosition q
  let found := (List.range 17).findSome? fun (k : Nat) =>
    let place := point - (k + 1 : Int)
    (neighbour? q place).map fun m => (m, place)
  found.getD ((q / powerOfTen (point - 17)).floor.toNat, point - 17)

/-- The digits laid out around a decimal point that `point` digits precede. -/
def layOut (digits : Text) (point : Int) : Text :=
  let count : Int := digits.length
  -- 48 is the zero
  if count ≤ point ∧ point ≤ 21 then digits ++ List.replicate (point - count).toNat 48
  else if 0 < point ∧ point ≤ 21 then
    digits.take point.toNat ++ units "." ++ digits.drop point.toNat
  else if -6 < point ∧ point ≤ 0 then
    units "0." ++ List.replicate (-point).toNat 48 ++ digits
  else
    let exponent := point - 1
    let mantissa :=
      if digits.length = 1 then digits else digits.take 1 ++ units "." ++ digits.drop 1
    mantissa ++ units (if exponent < 0 then "e-" else "e+") ++ Text.ofNat exponent.natAbs

/-- The digits without the zeros at their end; the candidate above a run of nines
is a power of ten and ends in one. -/
def dropTrailingZeros (digits : Text) : Text := (digits.reverse.dropWhile (· = 48)).reverse

/-- The text of a positive rational. A natural number that is exact on the
binary grid is written with all its digits. -/
def ofPositive (q : Rat) : Text :=
  if q.den = 1 ∧ q.num ≤ 9007199254740992 then Text.ofNat q.num.natAbs
  else
    let (m, place) := shortest q
    let digits := Text.ofNat m
    layOut (dropTrailingZeros digits) (place + digits.length)

/-- The text of a rational. -/
def ofRat (q : Rat) : Text :=
  if q.num = 0 then units "0"
  else if q.num < 0 then 45 :: ofPositive (-q) else ofPositive q

/-! ## 2. Reading -/

/-- The number `mantissa · 10 ^ exponent`. The two bounds answer for exponents
whose power would be astronomical. -/
def scale (mantissa : Nat) (exponent : Int) : Number :=
  if mantissa = 0 then .finite 0
  else if 310 < exponent then .posInf
  -- so small a value rounds to zero
  else if exponent < -(400 + ((Nat.toDigits 10 mantissa).length : Int)) then .finite 0
  else Binary64.round ((mantissa : Rat) * powerOfTen exponent)

/-- Takes the digits at the front. -/
def takeDigits (t : Text) : Text × Text :=
  (t.takeWhile CodeUnit.isDigit, t.dropWhile CodeUnit.isDigit)

/-- The exponent part, if the rest of the text is one. -/
def exponent? : Text → Option Int
  | [] => some 0
  | e :: rest =>
    if e = unit 'e' ∨ e = unit 'E' then
      let (negative, digits) :=
        match rest with
        | u :: more =>
          if u = unit '-' then (true, more) else if u = unit '+' then (false, more)
          else (false, rest)
        | [] => (false, rest)
      if digits.isEmpty || !digits.all CodeUnit.isDigit then none
      else
        let value : Int := Text.digitsValue digits
        some (if negative then -value else value)
    else none

/-- A number without a sign: digits with an optional point among or around them,
and an optional exponent. -/
def unsigned? (t : Text) : Option Number :=
  let (whole, afterWhole) := takeDigits t
  let (fraction, rest) :=
    match afterWhole with
    | u :: more => if u = unit '.' then takeDigits more else ([], afterWhole)
    | [] => ([], afterWhole)
  if whole.isEmpty && fraction.isEmpty then none
  else (exponent? rest).map fun e =>
    scale (Text.digitsValue (whole ++ fraction)) (e - fraction.length)

/-- The value of a digit in a base up to sixteen. -/
def digitIn? (base : Nat) (u : CodeUnit) : Option Nat :=
  let lower := u.toLower
  let value :=
    if u.isDigit then u.toNat - 48
    else if 97 ≤ lower ∧ lower ≤ 102 then lower.toNat - 87 else 16
  if value < base then some value else none

/-- A whole number in a base, every unit being a digit of it. -/
def inBase? (base : Nat) (t : Text) : Option Number :=
  if t.isEmpty then none
  else
    (t.foldl (fun n u => do return base * (← n) + (← digitIn? base u)) (some 0)).map
      fun (n : Nat) =>
      Binary64.round n

/-- A number with an optional sign, or an infinity by name. -/
def signed? (t : Text) : Option Number :=
  let (negative, rest) :=
    match t with
    | u :: more =>
      if u = unit '-' then (true, more) else if u = unit '+' then (false, more) else (false, t)
    | [] => (false, t)
  let magnitude := if rest = units "Infinity" then some .posInf else unsigned? rest
  magnitude.map fun n => if negative then n.neg else n

end Decimal

namespace Number

/-- The decimal text of a number. -/
def toText : Number → Text
  | nan => units "NaN"
  | posInf => units "Infinity"
  | negInf => units "-Infinity"
  | finite q => Decimal.ofRat q

/-- The number that a text names, `nan` when it names none. -/
def ofText (t : Text) : Number :=
  let trimmed := t.trim
  let base (mark : Char) : Bool :=
    trimmed.startsWith [48, unit mark] || trimmed.startsWith [48, (unit mark).toUpper]
  let read :=
    if trimmed.isEmpty then some (.finite 0)
    else if base 'x' then Decimal.inBase? 16 (trimmed.drop 2)
    else if base 'o' then Decimal.inBase? 8 (trimmed.drop 2)
    else if base 'b' then Decimal.inBase? 2 (trimmed.drop 2)
    else Decimal.signed? trimmed
  read.getD .nan

end Number

end PromptTemplate
