/-
`Binary64.lean` -- rounding to the grid of 53-bit binary numbers.

A positive rational lies between two powers of two, which fixes the grid
`2 ^ quantum` of the numbers that can be kept there; the nearest point of the
grid is taken, a tie going to the even multiple. Beyond the last point of the
coarsest grid lies infinity.
-/
import PromptTemplate.Number

set_option autoImplicit false

namespace PromptTemplate.Binary64

/-- The quotient rounded to the nearest natural number, a half to the even one. -/
def roundHalfEven (num den : Nat) : Nat :=
  let quotient := num / den
  let rest := num % den
  if 2 * rest < den then quotient
  else if den < 2 * rest then quotient + 1
  else if quotient % 2 = 0 then quotient else quotient + 1

/-- Numerator and denominator of `num / den / 2 ^ e`. -/
def scaled (num den : Nat) (e : Int) : Nat × Nat :=
  (num <<< (-e).toNat, den <<< e.toNat)

/-- The exponent of the largest power of two that is not above `num / den`. -/
def binaryExponent (num den : Nat) : Int :=
  let guess : Int := (num.log2 : Int) - (den.log2 : Int)
  let (n, d) := scaled num den guess
  if d ≤ n then guess else guess - 1

/-- The exponent of the grid that `num / den` is rounded to: 53 significant bits,
but nothing finer than `2 ^ -1074`. -/
def quantum (num den : Nat) : Int := max (binaryExponent num den - 52) (-1074)

/-- A positive rational rounded to its grid. -/
def roundMagnitude (num den : Nat) : Rat :=
  let e := quantum num den
  let (n, d) := scaled num den e
  mkRat (roundHalfEven n d <<< e.toNat : Nat) (1 <<< (-e).toNat)

/-- The first power of two that is too large to be finite. -/
def limit : Rat := mkRat (1 <<< 1024 : Nat) 1

/-- The nearest number of the grid, or an infinity. -/
def round : Rounding := fun q =>
  if q.num = 0 then .finite 0
  else
    let magnitude := roundMagnitude q.num.natAbs q.den
    if q.num < 0 then
      if limit ≤ magnitude then .negInf else .finite (-magnitude)
    else
      if limit ≤ magnitude then .posInf else .finite magnitude

end PromptTemplate.Binary64
