/-
`Seeds.lean` -- all seeds walk one cycle.

A seeded source is called again and again, and keeps one number from call to call (`Mulberry32`).
What it computes with are numbers, not words: most of them are words read with a sign, a shifted
word has none, and a sum can need more than 32 bits. Every operation on bits cuts its operands down
to words again, so a call adds the increment to the word of the state and mixes what comes out
(`Mulberry32.call_signed`), and the draws are those of `Source.seeded`, which knows the state after
any number of calls at once (`Mulberry32.draw_ofSeed`). The increment is odd and has an inverse
among the words, so 2 ^ 32 calls in a row pass through every word once (`Source.stateAfter_eq_iff`,
`Source.exists_stateAfter`). A seed only says where on this cycle to begin.
-/
import PromptTemplate.Proofs.Command.Weights

set_option autoImplicit false

namespace PromptTemplate

/-! ## 1. One draw after another -/

namespace Source

@[simp] theorem stateAfter_zero (seed : UInt32) : stateAfter seed 0 = seed := by
  rw [stateAfter]
  exact (congrArg (seed + ·) UInt32.mul_zero).trans (UInt32.add_zero seed)

/-- The state that draws lead to is a seed for the draws behind them. -/
theorem stateAfter_add (seed : UInt32) (m n : Nat) :
    stateAfter seed (m + n) = stateAfter (stateAfter seed m) n := by
  rw [stateAfter, stateAfter, stateAfter, UInt32.ofNat_add, UInt32.mul_add, UInt32.add_assoc]

theorem seeded_add (seed : UInt32) (draw drawn : Nat) :
    seeded seed (draw + drawn) = seeded (stateAfter seed drawn) draw := by
  rw [seeded, seeded, word, word, ← stateAfter_add, Nat.add_comm draw, Nat.add_assoc]

/-- The seeded source draws from the grid. -/
theorem seeded_rounded (seed : UInt32) (draw : Nat) : (seeded seed draw).Rounded := by
  intro v hv
  -- a draw is a whole number of 32 bits over a power of two, so there is nothing to round
  obtain rfl : mkRat (word seed draw).toNat 4294967296 = v := Number.finite.inj hv
  have hword := (word seed draw).toNat_lt
  have hvalue : mkRat (word seed draw).toNat 4294967296 =
      ((word seed draw).toNat : Rat) * 2 ^ (-32 : Int) := by
    rw [Rat.mkRat_eq_div, zpow_neg, ← div_eq_mul_inv]
    norm_num
  have hone : ((word seed draw).toNat : Rat) * 2 ^ (-32 : Int) < 1 := by
    have hcast : ((word seed draw).toNat : Rat) < 2 ^ 32 := by exact_mod_cast hword
    rw [zpow_neg, ← div_eq_mul_inv, div_lt_one (by positivity)]
    exact_mod_cast hcast
  rw [hvalue]
  exact Binary64.round_multiple (by omega) (by decide) hone

/-- Times 2 ^ 32 a draw is its word again. -/
theorem mul_seeded (seed : UInt32) (draw : Nat) :
    Number.mul .exact (seeded seed draw) (.ofNat (2 ^ 32)) = .ofNat (word seed draw).toNat := by
  refine congrArg Number.finite ?_
  rw [Rat.mkRat_eq_div]
  push_cast
  norm_num

end Source

/-! ## 2. Words as numbers -/

namespace Number

/-- A word read with a sign: a number from -2 ^ 31 up to 2 ^ 31, which is left out. -/
def signed (word : UInt32) : Number := .finite (Int.bmod word.toNat (2 ^ 32))

/-- The bits that one of two words has and the other has not. -/
def bitXor (a b : Number) : Number := signed (a.toUInt32 ^^^ b.toUInt32)

/-- The bits that at least one of two words has. -/
def bitOr (a b : Number) : Number := signed (a.toUInt32 ||| b.toUInt32)

/-- A word without its lowest bits. Zeros come in at the top, and the result is read without a sign.
-/
def shiftRight (a : Number) (bits : UInt32) : Number := .ofNat (a.toUInt32 >>> bits).toNat

/-- The lower word of the product of two words. -/
def lowProduct (a b : Number) : Number := signed (a.toUInt32 * b.toUInt32)

theorem toUInt32_intCast (z : Int) : (Number.finite z).toUInt32 = UInt32.ofInt z := by
  simp [toUInt32, UInt32.ofInt]

@[simp] theorem toUInt32_ofNat (n : Nat) : (ofNat n).toUInt32 = UInt32.ofNat n := by
  have hmod : ((n : Int) % 2 ^ 32).toNat = n % 2 ^ 32 := by omega
  rw [ofNat, ← Int.cast_natCast, toUInt32_intCast, UInt32.ofInt, hmod, UInt32.ofNat_mod_size]

/-- The sign is only a way of reading a word. -/
@[simp] theorem toUInt32_signed (word : UInt32) : (signed word).toUInt32 = word := by
  have hmod : (Int.bmod word.toNat (2 ^ 32) % 2 ^ 32).toNat = word.toNat := by
    have hlt := word.toNat_lt
    rw [Int.bmod_def]
    omega
  rw [signed, toUInt32_intCast, UInt32.ofInt, hmod, UInt32.ofNat_toNat]

@[simp] theorem toUInt32_shiftRight (a : Number) (bits : UInt32) :
    (a.shiftRight bits).toUInt32 = a.toUInt32 >>> bits := by
  rw [shiftRight, toUInt32_ofNat, UInt32.ofNat_toNat]

/-- Two words with signs are added without rounding: the sum needs 33 bits of the 53. So its word is
the sum of the words. -/
@[simp] theorem toUInt32_add_signed (v w : UInt32) :
    (add Binary64.round (signed v) (signed w)).toUInt32 = v + w := by
  -- each word with its sign lies within 2 ^ 31 of zero
  have hexact : (Int.bmod v.toNat (2 ^ 32) + Int.bmod w.toNat
      (2 ^ 32)).natAbs < Binary64.exactUpTo := by
    have hv := Int.bmod_le (x := v.toNat) (m := 2 ^ 32) (by decide)
    have hw := Int.bmod_le (x := w.toNat) (m := 2 ^ 32) (by decide)
    have hv' := Int.le_bmod (x := v.toNat) (m := 2 ^ 32) (by decide)
    have hw' := Int.le_bmod (x := w.toNat) (m := 2 ^ 32) (by decide)
    rw [Binary64.exactUpTo]
    omega
  have hround := Binary64.round_intCast hexact
  rw [Int.cast_add] at hround
  calc (add Binary64.round (signed v) (signed w)).toUInt32
      = UInt32.ofInt (Int.bmod v.toNat (2 ^ 32) + Int.bmod w.toNat (2 ^ 32)) := by
        rw [← toUInt32_intCast, Int.cast_add, ← hround]
        rfl
    _ = (signed v).toUInt32 + (signed w).toUInt32 := by
        rw [UInt32.ofInt_add, ← toUInt32_intCast, ← toUInt32_intCast]
        rfl
    _ = v + w := by rw [toUInt32_signed, toUInt32_signed]

/-- With no bits to add, a number is cut down to its word. -/
theorem bitOr_zero (a : Number) : a.bitOr 0 = signed a.toUInt32 := by
  have hzero : (0 : Number).toUInt32 = 0 := rfl
  rw [bitOr, hzero, UInt32.or_zero]

end Number

/-! ## 3. One call after another -/

/-- A seeded source between two calls. -/
structure Mulberry32 where
  state : Number

namespace Mulberry32

open Number

/-- The source of a seed, before its first call. -/
def ofSeed (seed : Number) : Mulberry32 := ⟨seed.bitOr 0⟩

/-- The number that a state is mixed into. -/
def mixed (state : Number) : Number :=
  let first := lowProduct (state.bitXor (state.shiftRight 15)) (state.bitOr 1)
  let product := lowProduct (first.bitXor (first.shiftRight 7)) (first.bitOr 61)
  let second := (add Binary64.round first product).bitXor first
  second.bitXor (second.shiftRight 14)

/-- One call: what it draws, and the source after it. -/
def call (source : Mulberry32) : Number × Mulberry32 :=
  let state := (add Binary64.round source.state 0x6D2B79F5).bitOr 0
  (Binary64.round (mkRat (mixed state).toUInt32.toNat 4294967296), ⟨state⟩)

/-- The source after a number of calls. -/
def after (source : Mulberry32) : Nat → Mulberry32
  | 0 => source
  | calls + 1 => (source.after calls).call.2

/-- What a source draws in a call; the first call is number zero. -/
def draw (source : Mulberry32) (calls : Nat) : Number := (source.after calls).call.1

theorem signed_increment : signed Source.increment = 0x6D2B79F5 := by
  have hbmod : Int.bmod Source.increment.toNat (2 ^ 32) = (0x6D2B79F5 : Nat) := by decide
  rw [signed, hbmod]
  rfl

/-- Mixing numbers is mixing their words. -/
theorem toUInt32_mixed (word : UInt32) : (mixed (signed word)).toUInt32 = Source.mix word := by
  -- all numbers on the way are words with signs or shifted words, so each of them can be read as
  -- its word
  have hone : (1 : Number).toUInt32 = 1 := rfl
  have hmany : (61 : Number).toUInt32 = 61 := rfl
  simp only [mixed, bitXor, bitOr, lowProduct, toUInt32_signed, toUInt32_add_signed,
    toUInt32_shiftRight, hone, hmany]
  rfl

/-- **A call** adds the increment to the word of the state and draws what comes first from this word
as a seed. The quotient that it draws is on the grid, so nothing is rounded. -/
theorem call_signed (word : UInt32) :
    call ⟨signed word⟩ = (Source.seeded word 0, ⟨signed (word + Source.increment)⟩) := by
  have hstate : (add Binary64.round (signed word) 0x6D2B79F5).bitOr 0 =
      signed (word + Source.increment) := by
    rw [bitOr_zero, ← signed_increment, toUInt32_add_signed]
  have hword : Source.mix (word + Source.increment) = Source.word word 0 := by
    rw [Source.word, Source.stateAfter_succ, Source.stateAfter_zero]
  have hdraw := Source.seeded_rounded word 0 _ rfl
  rw [call, hstate, toUInt32_mixed, hword, hdraw]
  rfl

/-- **Any number of calls.** The state is a word with a sign, and its word is known in closed form.
-/
theorem after_ofSeed (seed : Number) (calls : Nat) :
    (ofSeed seed).after calls = ⟨signed (Source.stateAfter seed.toUInt32 calls)⟩ := by
  -- the state before the first call is the seed cut down to a word with a sign, and every call
  -- keeps it one
  induction calls with
  | zero => rw [after, ofSeed, bitOr_zero, Source.stateAfter_zero]
  | succ calls ih => rw [after, ih, call_signed, Source.stateAfter_succ]

theorem draw_ofSeed (seed : Number) (calls : Nat) :
    (ofSeed seed).draw calls = Source.seeded seed.toUInt32 calls := by
  rw [draw, after_ofSeed, call_signed, ← Source.seeded_add, Nat.zero_add]

end Mulberry32

/-! ## 4. The cycle -/

namespace Source

/-- The increment is odd, so it has an inverse among the words. -/
theorem increment_mul_inverse : increment * 0xDC58AA5D = 1 := by decide

theorem increment_mul_inj {a b : UInt32} (h : increment * a = increment * b) : a = b := by
  have hback (c : UInt32) : 0xDC58AA5D * (increment * c) = c := by
    rw [← UInt32.mul_assoc, UInt32.mul_comm 0xDC58AA5D, increment_mul_inverse, UInt32.one_mul]
  rw [← hback a, h, hback]

/-- **States come back after 2 ^ 32 draws**, and not before. -/
theorem stateAfter_eq_iff (seed : UInt32) (m n : Nat) :
    stateAfter seed m = stateAfter seed n ↔ m % 2 ^ 32 = n % 2 ^ 32 := by
  rw [stateAfter, stateAfter, UInt32.add_right_inj]
  constructor
  · intro h
    -- the increment is undone; what is left of a number of draws is its remainder
    have hwords := congrArg UInt32.toNat (increment_mul_inj h)
    rwa [UInt32.toNat_ofNat', UInt32.toNat_ofNat'] at hwords
  · intro h
    rw [← UInt32.ofNat_mod_size, h, UInt32.ofNat_mod_size]

/-- **Every state comes up**, wherever the draws began. -/
theorem exists_stateAfter (seed state : UInt32) :
    ∃ draws < 2 ^ 32, stateAfter seed draws = state := by
  -- the way from the seed to the state, in increments
  refine ⟨(0xDC58AA5D * (state - seed)).toNat, UInt32.toNat_lt _, ?_⟩
  rw [stateAfter, UInt32.ofNat_toNat, ← UInt32.mul_assoc, increment_mul_inverse, UInt32.one_mul,
    UInt32.add_comm, UInt32.sub_add_cancel]

/-! ## 5. Seeds -/

/-- The source that a whole number seeds. -/
def ofSeed (seed : Int) : Source := seeded (Number.finite seed).toUInt32

theorem ofSeed_eq (seed : Int) : ofSeed seed = seeded (UInt32.ofInt seed) := by
  rw [ofSeed, Number.toUInt32_intCast]

/-- A seed counts modulo 2 ^ 32. -/
theorem ofInt_emod (seed : Int) : UInt32.ofInt (seed % 2 ^ 32) = UInt32.ofInt seed := by
  rw [UInt32.ofInt, UInt32.ofInt, Int.emod_emod_of_dvd _ (dvd_refl _)]

/-- A seed that is larger by the increment is a state further on. -/
theorem ofInt_add_increment (seed : Int) (draws : Nat) :
    UInt32.ofInt (seed + draws * 0x6D2B79F5) = stateAfter (UInt32.ofInt seed) draws := by
  have hincrement : UInt32.ofInt 0x6D2B79F5 = increment := by decide
  have hdraws : UInt32.ofInt draws = UInt32.ofNat draws := by
    rw [← Number.toUInt32_intCast, Int.cast_natCast]
    exact Number.toUInt32_ofNat draws
  rw [UInt32.ofInt_add, UInt32.ofInt_mul, hincrement, hdraws, UInt32.mul_comm, stateAfter]

/-- **All seeds walk one cycle.** Called again and again, the source of a whole number has the
states and the draws that are known at once. Draws from one place on are the draws of the seed that
is larger by as many increments, modulo 2 ^ 32; seeds that are equal modulo 2 ^ 32 have the same
draws. Each draw times 2 ^ 32 is a whole number below 2 ^ 32. After 2 ^ 32 draws they repeat, while
the states of as many draws all differ. So the draws of every other seed are met on the way. -/
theorem seeds_walk_one_cycle (seed : Int) :
    (∀ n, ((Mulberry32.ofSeed (.finite seed)).after n).state.toUInt32 =
        stateAfter (Number.finite seed).toUInt32 n ∧
      (Mulberry32.ofSeed (.finite seed)).draw n = ofSeed seed n) ∧
    (∀ n k : Nat, ofSeed seed (n + k) = ofSeed ((seed + k * 0x6D2B79F5) % 2 ^ 32) n) ∧
    (∀ other : Int, other % 2 ^ 32 = seed % 2 ^ 32 → ofSeed other = ofSeed seed) ∧
    (∀ n, ∃ word : Nat, word < 2 ^ 32 ∧
      Number.mul .exact (ofSeed seed n) (.ofNat (2 ^ 32)) = .ofNat word) ∧
    (∀ n, ofSeed seed (n + 2 ^ 32) = ofSeed seed n) ∧
    (∀ m < 2 ^ 32, ∀ n < 2 ^ 32,
      ((Mulberry32.ofSeed (.finite seed)).after (m + 1)).state =
        ((Mulberry32.ofSeed (.finite seed)).after (n + 1)).state → m = n) ∧
    ∀ other : Int, ∃ k < 2 ^ 32, ∀ n, ofSeed other n = ofSeed seed (n + k) := by
  refine ⟨fun n => ⟨?_, Mulberry32.draw_ofSeed _ n⟩, fun n k => ?_, fun other hother => ?_,
    fun n => ?_, fun n => ?_, fun m hm n hn hstates => ?_, fun other => ?_⟩
  -- one part after the other: the states, the jump, equal seeds, the words and the length
  · rw [Mulberry32.after_ofSeed, Number.toUInt32_signed]
  · rw [ofSeed_eq, ofSeed_eq, ofInt_emod, ofInt_add_increment, seeded_add]
  · rw [ofSeed_eq, ofSeed_eq, ← ofInt_emod, hother, ofInt_emod]
  · exact ⟨_, UInt32.toNat_lt _, mul_seeded _ n⟩
  · have hround : stateAfter (Number.finite seed).toUInt32 (2 ^ 32) =
        (Number.finite seed).toUInt32 :=
      ((stateAfter_eq_iff _ _ 0).2 rfl).trans (stateAfter_zero _)
    rw [ofSeed, seeded_add, hround]
  · -- numbers with signs differ if their words do, so it is enough to compare remainders
    rw [Mulberry32.after_ofSeed, Mulberry32.after_ofSeed] at hstates
    have hwords := congrArg Number.toUInt32 hstates
    rw [Number.toUInt32_signed, Number.toUInt32_signed, stateAfter_eq_iff] at hwords
    omega
  · -- the other seed is itself one of the states
    obtain ⟨k, hk, hstate⟩ :=
      exists_stateAfter (Number.finite seed).toUInt32 (Number.finite other).toUInt32
    refine ⟨k, hk, fun n => ?_⟩
    rw [ofSeed, ofSeed, seeded_add, hstate]

/-- A negative seed and the word that it is cut down to: the first draw is 3850105811 of 2 ^ 32
parts, and the state of this draw is not that of the last one before the draws repeat. -/
theorem seeds_walk_one_cycle_of_minusOne :
    (4294967295 : Int) % 2 ^ 32 = (-1) % 2 ^ 32 ∧ ofSeed 4294967295 = ofSeed (-1) ∧
      (Mulberry32.ofSeed (.finite (-1 : Int))).draw 0 = .finite (mkRat 3850105811 4294967296) ∧
      ((Mulberry32.ofSeed (.finite (-1 : Int))).after 1).state ≠
        ((Mulberry32.ofSeed (.finite (-1 : Int))).after (4294967295 + 1)).state := by
  obtain ⟨hcalls, -, hsame, -, -, hstates, -⟩ := seeds_walk_one_cycle (-1)
  have hseeds : (4294967295 : Int) % 2 ^ 32 = (-1) % 2 ^ 32 := by decide
  have hword : word (UInt32.ofInt (-1)) 0 = 3850105811 := by decide
  refine ⟨hseeds, hsame _ hseeds, ?_, fun h => ?_⟩
  · rw [(hcalls 0).2, ofSeed_eq, seeded, hword]
    rfl
  · exact absurd (hstates 0 (by decide) 4294967295 (by decide) h) (by decide)

end Source

end PromptTemplate
