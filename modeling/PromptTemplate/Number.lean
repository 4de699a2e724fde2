/-
`Number.lean` -- the numbers of weights, chances, draws and counts.

A finite number is an exact rational, so one definition serves both readings of
the arithmetic: every operation computes exactly and then hands its result to a
`Rounding`. At run time that is rounding to the 53-bit grid (`Binary64.round`);
with `Rounding.exact` the same operations are rational arithmetic. The sign of
zero is never observable here and is not kept.
-/

set_option autoImplicit false

namespace PromptTemplate

/-- A finite rational, one of the two infinities, or no number at all. -/
inductive Number
  | nan
  | negInf
  | posInf
  | finite (value : Rat)
  deriving DecidableEq, Repr, Inhabited

/-- How an exact result becomes a number. -/
abbrev Rounding := Rat → Number

/-- Keeps every result as it is. -/
def Rounding.exact : Rounding := Number.finite

namespace Number

instance (n : Nat) : OfNat Number n := ⟨.finite n⟩

/-- A natural number as a number. -/
def ofNat (n : Nat) : Number := .finite n

/-! ## 1. Order -/

/-- Strictly less; false whenever one side is no number. -/
def lt : Number → Number → Bool
  | nan, _ => false
  | _, nan => false
  | negInf, negInf => false
  | negInf, _ => true
  | _, negInf => false
  | posInf, _ => false
  | _, posInf => true
  | finite a, finite b => decide (a < b)

/-- Less or equal; false whenever one side is no number. -/
def le : Number → Number → Bool
  | nan, _ => false
  | _, nan => false
  | negInf, _ => true
  | _, posInf => true
  | posInf, _ => false
  | _, negInf => false
  | finite a, finite b => decide (a ≤ b)

/-! ## 2. Arithmetic -/

/-- The sum, rounded; opposite infinities have none. -/
def add (round : Rounding) : Number → Number → Number
  | finite a, finite b => round (a + b)
  | nan, _ => nan
  | _, nan => nan
  | posInf, negInf => nan
  | negInf, posInf => nan
  | posInf, _ => posInf
  | _, posInf => posInf
  | negInf, _ => negInf
  | _, negInf => negInf

/-- The number with its sign changed. -/
def neg : Number → Number
  | nan => nan
  | negInf => posInf
  | posInf => negInf
  | finite a => finite (-a)

/-- The difference, rounded. -/
def sub (round : Rounding) (a b : Number) : Number := add round a b.neg

/-- An infinity with the sign of `a`; zero has none. -/
private def infinityTimes (a : Rat) (positive : Bool) : Number :=
  if a = 0 then nan else if decide (0 < a) = positive then posInf else negInf

/-- The product, rounded; zero times an infinity has none. -/
def mul (round : Rounding) : Number → Number → Number
  | finite a, finite b => round (a * b)
  | nan, _ => nan
  | _, nan => nan
  | finite a, posInf => infinityTimes a true
  | finite a, negInf => infinityTimes a false
  | posInf, finite b => infinityTimes b true
  | negInf, finite b => infinityTimes b false
  | posInf, posInf => posInf
  | negInf, negInf => posInf
  | posInf, negInf => negInf
  | negInf, posInf => negInf

/-- The largest integer not above the number. -/
def floor : Number → Number
  | finite a => finite a.floor
  | other => other

/-! ## 3. Readings -/

/-- The integer that the number is, if it is one. -/
def toInt? : Number → Option Int
  | finite a => if a.den = 1 then some a.num else none
  | _ => none

/-- The natural number that the number is, if it is one. -/
def toNat? (n : Number) : Option Nat :=
  match n.toInt? with
  | some (.ofNat k) => some k
  | _ => none

/-- How often a loop that counts from zero up to the number runs: nothing for a
negative or absent bound. -/
def loopCount : Number → Nat
  | finite a => a.ceil.toNat
  | _ => 0

/-- The integer part, toward zero, modulo 2 ^ 32; zero for what is not finite. -/
def toUInt32 : Number → UInt32
  | finite a => UInt32.ofNat ((a.num.tdiv a.den) % 4294967296).toNat
  | _ => 0

end Number

end PromptTemplate
