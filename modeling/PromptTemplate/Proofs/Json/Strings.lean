/-
`Strings.lean` -- a quoted text reads back.

What stands between quotes is a sequence of marks, each for one unit or for a surrogate pair, and a
reader of the format takes each mark for what it was written for, whatever follows
(`readString_escapeSingle`). So the closing quote is the first one that is no part of a mark, and a
text can be told from its quoted form even where more text follows (`Text.quote_append_inj`).
-/
import PromptTemplate.Json.Reader

set_option autoImplicit false

namespace PromptTemplate

namespace Json

/-! ## 1. Marks -/

/-- The digits of a number are read for their values. -/
theorem hexValue?_hexDigit {n : Nat} (h : n < 16) :
    hexValue? (Text.hexDigit n) = some n.toUInt16 := by
  have hall : ∀ n : Fin 16, hexValue? (Text.hexDigit n) = some n.val.toUInt16 := by decide
  exact hall ⟨n, h⟩

/-- A unit is the sum of its four hexadecimal places. -/
theorem sum_hexDigits (u : CodeUnit) :
    (u.toNat / 4096).toUInt16 * 4096 + (u.toNat / 256 % 16).toUInt16 * 256 +
      (u.toNat / 16 % 16).toUInt16 * 16 + (u.toNat % 16).toUInt16 = u := by
  have hu : u.toNat < 65536 := u.toNat_lt
  refine UInt16.toNat_inj.1 ?_
  simp only [UInt16.toNat_add, UInt16.toNat_mul, UInt16.toNat_ofNat', UInt16.toNat_ofNat,
    Nat.toUInt16_eq]
  omega

variable (read rest : Text)

theorem readString_hexEscape (u : CodeUnit) :
    readString read (Text.hexEscape u ++ rest) = readString (u :: read) rest := by
  have hu : u.toNat < 65536 := u.toNat_lt
  have hescape : Text.hexEscape u ++ rest =
      92 :: 117 :: Text.hexDigit (u.toNat / 4096) :: Text.hexDigit (u.toNat / 256 % 16) ::
        Text.hexDigit (u.toNat / 16 % 16) :: Text.hexDigit (u.toNat % 16) :: rest := rfl
  rw [hescape, readString]
  simp only [hexValue?_hexDigit (show u.toNat / 4096 < 16 by omega),
    hexValue?_hexDigit (Nat.mod_lt _ (by decide)), sum_hexDigits]

/-- A unit that is written as it is. -/
theorem readString_plain {u : CodeUnit} (hquote : u ≠ 34) (hslash : u ≠ 92) (hcontrol : ¬u < 32) :
    readString read (u :: rest) = readString (u :: read) rest := by
  rw [readString]
  · rw [if_neg hcontrol]
  all_goals simp_all

/-- An escape of one letter. -/
theorem readString_letter {e u : CodeUnit} (h : escapeOf? e = some u) (he : e ≠ 117) :
    readString read (92 :: e :: rest) = readString (u :: read) rest := by
  rw [readString]
  · rw [h]
  all_goals simp_all

theorem readString_escapeUnit (u : CodeUnit) :
    readString read (Text.escapeUnit u ++ rest) = readString (u :: read) rest := by
  have hletter : ∀ e v : CodeUnit, escapeOf? e = some v → e ≠ 117 →
      readString read ([92, e] ++ rest) = readString (v :: read) rest :=
    fun e v h he => readString_letter read rest h he
  -- the named escapes one by one; then control characters in hexadecimal,
  -- and all others as they are
  unfold Text.escapeUnit
  split
  · next h => rw [h]; exact hletter 34 34 (by decide) (by decide)
  split
  · next h => rw [h]; exact hletter 92 92 (by decide) (by decide)
  split
  · next h => rw [h]; exact hletter 98 8 (by decide) (by decide)
  split
  · next h => rw [h]; exact hletter 116 9 (by decide) (by decide)
  split
  · next h => rw [h]; exact hletter 110 10 (by decide) (by decide)
  split
  · next h => rw [h]; exact hletter 102 12 (by decide) (by decide)
  split
  · next h => rw [h]; exact hletter 114 13 (by decide) (by decide)
  split
  · exact readString_hexEscape read rest u
  · next hquote hslash _ _ _ _ _ hcontrol => exact readString_plain read rest hquote hslash hcontrol

theorem readString_escapeSingle (u : CodeUnit) :
    readString read (Text.escapeSingle u ++ rest) = readString (u :: read) rest := by
  unfold Text.escapeSingle
  split
  · exact readString_hexEscape read rest u
  · exact readString_escapeUnit read rest u

/-- The halves of a pair are written as they are. -/
theorem readString_surrogate {u : CodeUnit} (h : u.isHigh = true ∨ u.isLow = true) :
    readString read (u :: rest) = readString (u :: read) rest := by
  have hlarge : 0xD800 ≤ u.toNat := by
    simp only [CodeUnit.isHigh, CodeUnit.isLow, Bool.and_eq_true, decide_eq_true_eq,
      UInt16.le_iff_toNat_le, UInt16.reduceToNat] at h
    omega
  refine readString_plain read rest ?_ ?_ ?_
  · rintro rfl
    exact absurd hlarge (by decide)
  · rintro rfl
    exact absurd hlarge (by decide)
  · rw [UInt16.lt_iff_toNat_lt]
    exact Nat.not_lt.2 (Nat.le_trans (by decide) hlarge)

/-- **A quoted text reads back**, up to its closing quote, whatever follows. -/
theorem readString_escaped (t : Text) :
    readString read (Text.escaped t ++ 34 :: rest) = .ok (read.reverse ++ t, rest) := by
  fun_induction Text.escaped t generalizing read with
  | case1 => rw [List.nil_append, readString, List.append_nil]
  | case2 u => rw [readString_escapeSingle, readString, List.reverse_cons]
  | case3 u v more hpair ih =>
    obtain ⟨hhigh, hlow⟩ := Bool.and_eq_true_iff.1 hpair
    rw [List.cons_append, List.cons_append, readString_surrogate _ _ (.inl hhigh),
      readString_surrogate _ _ (.inr hlow), ih]
    simp only [List.reverse_cons, List.append_assoc, List.cons_append, List.nil_append]
  | case4 u v more hpair ih =>
    rw [List.append_assoc, readString_escapeSingle, ih, List.reverse_cons, List.append_assoc,
      List.singleton_append]

end Json

namespace Text

/-! ## 2. Quoted texts -/

/-- A quoted text ends where its quotes say, so it can be told from what follows. -/
theorem quote_append_inj {s t rest more : Text} (h : quote s ++ rest = quote t ++ more) :
    s = t ∧ rest = more := by
  have hbody : escaped s ++ 34 :: rest = escaped t ++ 34 :: more := by
    simpa only [quote, List.cons_append, List.append_assoc, List.nil_append, List.cons.injEq,
      true_and] using h
  have hread := congrArg (Json.readString []) hbody
  rw [Json.readString_escaped, Json.readString_escaped] at hread
  simpa using hread

end Text

end PromptTemplate
