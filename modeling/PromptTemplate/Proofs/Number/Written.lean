/-
`Written.lean` -- the numbers that a template can write.

A template writes a number as digits, with a point among or around them, and without a
sign. Such a text always names a number: its digits scaled down by those behind the point
(`Number.ofText_digits`, `Number.ofText_point`), rounded to the grid, and so not negative
(`Decimal.scale_nonneg`). Only its size is unbounded, and then it is an infinity. Natural
numbers of 53 bits are read back as they are written (`Number.ofText_ofNat`).
-/
import PromptTemplate.Number.Decimal
import PromptTemplate.Proofs.Text.Units

set_option autoImplicit false

namespace PromptTemplate

/-- A natural number is one. -/
theorem Number.toNat?_ofNat (n : Nat) : (Number.ofNat n).toNat? = some n := by
  simp only [Number.ofNat, Number.toNat?, Number.toInt?, Rat.den_natCast, Rat.num_natCast, if_true]

/-! ## 1. Rounding keeps the sign -/

/-- A number that is not negative, infinity included. -/
def Number.Nonneg (n : Number) : Prop := n = .posInf ∨ ∃ q : Rat, 0 ≤ q ∧ n = .finite q

theorem mkRat_natCast_nonneg (num den : Nat) : 0 ≤ mkRat num den := by
  rw [← Rat.divInt_ofNat]
  exact Rat.divInt_nonneg (Int.natCast_nonneg num) (Int.natCast_nonneg den)

theorem Binary64.round_nonneg {q : Rat} (hq : 0 ≤ q) : (Binary64.round q).Nonneg := by
  have hnum : ¬q.num < 0 := Int.not_lt.2 (Rat.num_nonneg.2 hq)
  unfold Binary64.round
  by_cases hzero : q.num = 0
  · rw [if_pos hzero]
    exact .inr ⟨0, by decide, rfl⟩
  · rw [if_neg hzero, if_neg hnum]
    by_cases hlimit : Binary64.limit ≤ Binary64.roundMagnitude q.num.natAbs q.den
    · rw [if_pos hlimit]
      exact .inl rfl
    · rw [if_neg hlimit]
      exact .inr ⟨_, mkRat_natCast_nonneg _ _, rfl⟩

theorem Decimal.powerOfTen_nonneg (e : Int) : 0 ≤ Decimal.powerOfTen e := by
  unfold Decimal.powerOfTen
  by_cases h : 0 ≤ e
  · rw [if_pos h]
    exact mkRat_natCast_nonneg _ _
  · rw [if_neg h]
    exact mkRat_natCast_nonneg 1 _

/-- A scaled natural number is not negative. -/
theorem Decimal.scale_nonneg (mantissa : Nat) (exponent : Int) :
    (Decimal.scale mantissa exponent).Nonneg := by
  -- zero, too large, too small, or a product that is rounded: none of them is negative
  unfold Decimal.scale
  by_cases hzero : mantissa = 0
  · rw [if_pos hzero]
    exact .inr ⟨0, by decide, rfl⟩
  · rw [if_neg hzero]
    by_cases hlarge : 310 < exponent
    · rw [if_pos hlarge]
      exact .inl rfl
    · rw [if_neg hlarge]
      by_cases hsmall : exponent < -(400 + ((Nat.toDigits 10 mantissa).length : Int))
      · rw [if_pos hsmall]
        exact .inr ⟨0, by decide, rfl⟩
      · rw [if_neg hsmall]
        exact Binary64.round_nonneg
          (Rat.mul_nonneg Rat.natCast_nonneg (Decimal.powerOfTen_nonneg exponent))

/-! ## 2. Digits and points -/

theorem Decimal.takeDigits_append {digits rest : Text} (hdigits : ∀ u ∈ digits, u.isDigit = true)
    (hrest : ∀ u ∈ rest.head?, u.isDigit = false) :
    Decimal.takeDigits (digits ++ rest) = (digits, rest) := by
  obtain ⟨htake, hdrop⟩ := takeWhile_append_stop hdigits hrest
  rw [takeDigits, htake, hdrop]

theorem Decimal.takeDigits_self {digits : Text} (hdigits : ∀ u ∈ digits, u.isDigit = true) :
    Decimal.takeDigits digits = (digits, []) := by
  have happend : Decimal.takeDigits (digits ++ []) = (digits, []) :=
    takeDigits_append hdigits (by simp)
  rwa [List.append_nil] at happend

/-- A text of digits and points has no sign, no mark of a base and no blanks, so it is
read as an unsigned number. -/
theorem Number.ofText_eq_unsigned {t : Text} (hne : t ≠ [])
    (hunits : ∀ u ∈ t, u.isDigit = true ∨ u = 46) :
    Number.ofText t = (Decimal.unsigned? t).getD .nan := by
  -- digits and the point are between 46 and 57: no blank, no sign, no letter of a name or a base
  have hbound : ∀ u ∈ t, 46 ≤ u.toNat ∧ u.toNat ≤ 57 := by
    intro u hu
    rcases hunits u hu with hdigit | rfl
    · have := CodeUnit.isDigit_iff.1 hdigit
      omega
    · decide
  have htrim : t.trim = t := Text.trim_eq_self fun u hu =>
    CodeUnit.isBlank_eq_false (by have := hbound u hu; omega) (by have := hbound u hu; omega)
  have hbase : ∀ mark : CodeUnit, 58 ≤ mark.toNat → t.startsWith [48, mark] = false := by
    intro mark hmark
    cases hprefix : t.startsWith [48, mark] with
    | false => rfl
    | true =>
      obtain ⟨rest, hrest⟩ := List.isPrefixOf_iff_prefix.1 hprefix
      have := hbound mark (by rw [← hrest]; simp)
      omega
  have hsigned : Decimal.signed? t = Decimal.unsigned? t := by
    cases t with
    | nil => exact absurd rfl hne
    | cons u more =>
      have hu := hbound u List.mem_cons_self
      have hminus : u ≠ unit '-' := fun h => by rw [h] at hu; revert hu; decide
      have hplus : u ≠ unit '+' := fun h => by rw [h] at hu; revert hu; decide
      have hname : u :: more ≠ units "Infinity" := fun h => by
        rw [show u = 73 from (List.cons.inj h).1] at hu
        revert hu
        decide
      simp only [Decimal.signed?, if_neg hminus, if_neg hplus, if_neg hname,
        Bool.false_eq_true, if_false, Option.map_id']
  have hnonempty : t.isEmpty = false := by simpa using hne
  simp only [Number.ofText, htrim, hnonempty, Bool.false_eq_true, if_false, hsigned,
    hbase (unit 'x') (by decide), hbase (unit 'x').toUpper (by decide),
    hbase (unit 'o') (by decide), hbase (unit 'o').toUpper (by decide),
    hbase (unit 'b') (by decide), hbase (unit 'b').toUpper (by decide), Bool.or_self]

/-- Digits alone. -/
theorem Number.ofText_digits {digits : Text} (hne : digits ≠ [])
    (hdigits : ∀ u ∈ digits, u.isDigit = true) :
    Number.ofText digits = Decimal.scale (Text.digitsValue digits) 0 := by
  have htake := Decimal.takeDigits_self hdigits
  have hnonempty : digits.isEmpty = false := by simpa using hne
  rw [Number.ofText_eq_unsigned hne fun u hu => .inl (hdigits u hu)]
  simp [Decimal.unsigned?, htake, hnonempty, Decimal.exponent?]

/-- Digits around a point, some at least on one side. -/
theorem Number.ofText_point {whole fraction : Text}
    (hsome : (whole.isEmpty && fraction.isEmpty) = false) (hwhole : ∀ u ∈ whole, u.isDigit = true)
    (hfraction : ∀ u ∈ fraction, u.isDigit = true) :
    Number.ofText (whole ++ 46 :: fraction) =
      Decimal.scale (Text.digitsValue (whole ++ fraction)) (0 - fraction.length) := by
  have htake : Decimal.takeDigits (whole ++ 46 :: fraction) = (whole, 46 :: fraction) :=
    Decimal.takeDigits_append hwhole (by simp; decide)
  have htake' := Decimal.takeDigits_self hfraction
  have hunits : ∀ u ∈ whole ++ 46 :: fraction, u.isDigit = true ∨ u = 46 := by
    intro u hu
    rcases List.mem_append.1 hu with hu | hu
    · exact .inl (hwhole u hu)
    · rcases List.mem_cons.1 hu with rfl | hu
      · exact .inr rfl
      · exact .inl (hfraction u hu)
  rw [Number.ofText_eq_unsigned (by simp) hunits]
  -- the digits go up to the point, and the rest of them up to the end
  simp only [Decimal.unsigned?, htake, if_pos (show (46 : CodeUnit) = unit '.' from rfl), htake',
    hsome, Bool.false_eq_true, if_false, Decimal.exponent?, Option.map_some, Option.getD_some]

/-! ## 3. Natural numbers -/

/-- A digit and its unit have the same number. -/
theorem toNat_unit_of_isDigit {c : Char} (h : c.isDigit = true) :
    (unit c).toNat = c.toNat ∧ 48 ≤ c.toNat ∧ c.toNat ≤ 57 := by
  have hbounds : 48 ≤ c.toNat ∧ c.toNat ≤ 57 := by
    simp only [Char.isDigit, Bool.and_eq_true, decide_eq_true_eq, ge_iff_le,
      UInt32.le_iff_toNat_le] at h
    exact h
  refine ⟨?_, hbounds⟩
  rw [unit, Nat.toUInt16_eq, UInt16.toNat_ofNat_of_lt']
  have := hbounds.2
  simp [UInt16.size]
  omega

/-- The digits of a natural number are digits, one at least. -/
theorem Text.ofNat_digits (n : Nat) : Text.ofNat n ≠ [] ∧ ∀ u ∈ Text.ofNat n, u.isDigit = true := by
  refine ⟨fun h => Nat.toDigits_ne_nil (List.map_eq_nil_iff.1 h), fun u hu => ?_⟩
  obtain ⟨c, hc, rfl⟩ := List.mem_map.1 hu
  have hunit := toNat_unit_of_isDigit (Nat.isDigit_of_mem_toDigits (by decide) (by decide) hc)
  exact CodeUnit.isDigit_iff.2 (by omega)

/-- What is written is the number that is read. -/
theorem Text.digitsValue_ofNat (n : Nat) : Text.digitsValue (Text.ofNat n) = n := by
  -- the digits are added up from the left on both sides, in units here and in characters there
  have hfold : ∀ (cs : List Char), (∀ c ∈ cs, c.isDigit = true) → ∀ init : Nat,
      (cs.map unit).foldl (fun n u => 10 * n + (u.toNat - 48)) init =
        Nat.ofDigitChars 10 cs init := by
    intro cs
    induction cs with
    | nil => exact fun _ _ => rfl
    | cons c cs ih =>
      intro hcs init
      have hunit := toNat_unit_of_isDigit (hcs c List.mem_cons_self)
      rw [List.map_cons, List.foldl_cons, Nat.ofDigitChars_cons, hunit.1]
      exact ih (fun other hmem => hcs other (List.mem_cons_of_mem _ hmem)) _
  have hdigits : ∀ c ∈ Nat.toDigits 10 n, c.isDigit = true := fun c hc =>
    Nat.isDigit_of_mem_toDigits (by decide) (by decide) hc
  rw [Text.digitsValue, Text.ofNat, hfold _ hdigits, Nat.ofDigitChars_ten_toDigits]

/-- Below this, and up to it, every natural number is on the grid. -/
def Binary64.exactUpTo : Nat := 9007199254740992

/-- A natural number is written with its digits. -/
theorem Decimal.ofRat_natCast {n : Nat} (hpos : 0 < n) (h : n < Binary64.exactUpTo) :
    Decimal.ofRat n = Text.ofNat n := by
  rw [Binary64.exactUpTo] at h
  rw [ofRat, Rat.num_natCast, if_neg (by omega), if_neg (by omega), ofPositive, Rat.num_natCast,
    Rat.den_natCast, if_pos ⟨rfl, by omega⟩, Int.natAbs_natCast]

/-- Natural numbers of 53 bits are on the grid. -/
theorem Binary64.round_natCast {n : Nat} (h : n < exactUpTo) :
    Binary64.round (n : Rat) = .finite n := by
  rw [exactUpTo] at h
  unfold Binary64.round
  rw [Rat.num_natCast, Rat.den_natCast]
  by_cases hzero : n = 0
  · subst hzero
    rfl
  · have hlog : n.log2 ≤ 52 := by
      have : n.log2 < 53 := (Nat.log2_lt hzero).2 (by omega)
      omega
    have hexponent : Binary64.binaryExponent n 1 = n.log2 := by
      have hguess : (n.log2 : Int) - ((1 : Nat).log2 : Int) = n.log2 := by
        rw [show (1 : Nat).log2 = 0 from rfl]; omega
      have hle := Nat.log2_self_le hzero
      simp only [Binary64.binaryExponent, Binary64.scaled, hguess]
      rw [if_pos]
      have hback : (-(n.log2 : Int)).toNat = 0 := by omega
      rw [hback, Int.toNat_natCast, Nat.shiftLeft_eq, Nat.shiftLeft_eq]
      omega
    -- the grid is at least as fine as the natural numbers here, so nothing is rounded
    have hquantum : Binary64.quantum n 1 = (n.log2 : Int) - 52 := by
      rw [Binary64.quantum, hexponent]
      omega
    have hmagnitude : Binary64.roundMagnitude n 1 = n := by
      have hcoarse : ((n.log2 : Int) - 52).toNat = 0 := by omega
      simp only [Binary64.roundMagnitude, hquantum, Binary64.scaled, hcoarse,
        Binary64.roundHalfEven, Nat.shiftLeft_zero, Nat.div_one, Nat.mod_one]
      generalize (-((n.log2 : Int) - 52)).toNat = k
      rw [if_pos (by decide), Nat.shiftLeft_eq, Nat.shiftLeft_eq, Nat.one_mul]
      have hpow : (2 ^ k : Nat) ≠ 0 := Nat.ne_of_gt (Nat.two_pow_pos k)
      have hscaled : mkRat ((n : Int) * (2 ^ k : Nat)) (1 * 2 ^ k) = mkRat n 1 :=
        Rat.mkRat_mul_right hpow
      rw [Int.natCast_mul]
      rw [Nat.one_mul] at hscaled
      rw [hscaled]
      exact Rat.mkRat_self n
    have hlimit : ¬Binary64.limit ≤ (n : Rat) := by
      have hvalue : Binary64.limit = ((1 <<< 1024 : Nat) : Rat) := rfl
      rw [hvalue, Rat.natCast_le_natCast]
      have : 9007199254740992 < (1 <<< 1024 : Nat) := by decide +kernel
      omega
    rw [if_neg (by omega), if_neg (by omega), Int.natAbs_natCast, hmagnitude, if_neg hlimit]

theorem Decimal.scale_zero {n : Nat} (h : n < Binary64.exactUpTo) : scale n 0 = .finite n := by
  rw [scale]
  by_cases hzero : n = 0
  · subst hzero
    rfl
  · rw [if_neg hzero, if_neg (by decide), if_neg (by omega)]
    have hone : Decimal.powerOfTen 0 = 1 := rfl
    rw [hone, Rat.mul_one, Binary64.round_natCast h]

/-- Natural numbers are read as they are. -/
theorem Number.ofText_ofNat {n : Nat} (h : n < Binary64.exactUpTo) :
    Number.ofText (Text.ofNat n) = .finite n := by
  obtain ⟨hne, hdigits⟩ := Text.ofNat_digits n
  rw [Number.ofText_digits hne hdigits, Text.digitsValue_ofNat, Decimal.scale_zero h]

end PromptTemplate
