/-
`Units.lean` -- blanks, digits and letters, and what trimming and cutting do to a text.

The reader trims what it takes and tests single units, so most facts about a text come
down to the unit at one of its ends. Trimming leaves no blank at an end
(`Text.isBlank_getLast_trimEnd`), and a text that has none there is left as it is.
-/
import PromptTemplate.Command.Build

set_option autoImplicit false

namespace PromptTemplate

/-! ## 1. Classes of units -/

/-- What passes a test is taken up to the first member that does not. -/
theorem takeWhile_append_stop {α : Type} {test : α → Bool} {taken rest : List α}
    (htaken : ∀ a ∈ taken, test a = true) (hrest : ∀ a ∈ rest.head?, test a = false) :
    (taken ++ rest).takeWhile test = taken ∧ (taken ++ rest).dropWhile test = rest := by
  rw [List.takeWhile_append_of_pos htaken, List.dropWhile_append_of_pos htaken]
  cases rest with
  | nil => exact ⟨List.append_nil taken, rfl⟩
  | cons a rest =>
    have ha : test a = false := hrest a rfl
    simp [ha]

/-- A digit, as a bound on its number. -/
theorem CodeUnit.isDigit_iff {u : CodeUnit} : u.isDigit = true ↔ 48 ≤ u.toNat ∧ u.toNat ≤ 57 := by
  simp [isDigit, UInt16.le_iff_toNat_le]

/-- A letter, as bounds on its number. -/
theorem CodeUnit.isLetter_iff {u : CodeUnit} :
    u.isLetter = true ↔ 65 ≤ u.toNat ∧ u.toNat ≤ 90 ∨ 97 ≤ u.toNat ∧ u.toNat ≤ 122 := by
  simp [isLetter, UInt16.le_iff_toNat_le]

/-- A blank is below the digits, or beyond ASCII. -/
theorem CodeUnit.toNat_of_isBlank {u : CodeUnit} (h : u.isBlank = true) :
    u.toNat ≤ 32 ∨ 160 ≤ u.toNat := by
  simp only [isBlank, Bool.or_eq_true, Bool.and_eq_true, decide_eq_true_eq, beq_iff_eq,
    UInt16.le_iff_toNat_le, ← UInt16.toNat_inj, UInt16.reduceToNat] at h
  omega

/-- What is printable in ASCII is no blank. -/
theorem CodeUnit.isBlank_eq_false {u : CodeUnit} (hlow : 33 ≤ u.toNat) (hhigh : u.toNat ≤ 126) :
    u.isBlank = false := by
  cases hblank : u.isBlank with
  | false => rfl
  | true =>
    have := toNat_of_isBlank hblank
    omega

/-- A letter is not what is no letter. -/
theorem CodeUnit.ne_of_isLetter {u v : CodeUnit} (hu : u.isLetter = true)
    (hv : v.isLetter = false) : u ≠ v := by
  rintro rfl
  rw [hu] at hv
  cases hv

/-- A digit is not what is no digit. -/
theorem CodeUnit.ne_of_isDigit {u v : CodeUnit} (hu : u.isDigit = true) (hv : v.isDigit = false) :
    u ≠ v := by
  rintro rfl
  rw [hu] at hv
  cases hv

/-- A letter is neither a blank nor a digit. -/
theorem CodeUnit.isBlank_of_isLetter {u : CodeUnit} (h : u.isLetter = true) :
    u.isBlank = false ∧ u.isDigit = false := by
  have hbounds := isLetter_iff.1 h
  constructor
  · exact isBlank_eq_false (by omega) (by omega)
  · refine Bool.eq_false_iff.2 fun hdigit => ?_
    have := isDigit_iff.1 hdigit
    omega

namespace Text

/-- What is decided for each unit of a text holds of all of them. -/
theorem forall_of_all {p : CodeUnit → Prop} [DecidablePred p] {t : Text}
    (h : t.all (fun u => decide (p u)) = true) : ∀ u ∈ t, p u :=
  fun u hu => of_decide_eq_true (List.all_eq_true.1 h u hu)

/-- What holds of all units of a text holds of the first one, whatever stands behind them. -/
theorem head_append {p : CodeUnit → Prop} {t : Text} (hne : t ≠ []) (h : ∀ u ∈ t, p u)
    (rest : Text) : ∀ u ∈ (t ++ rest).head?, p u := by
  obtain ⟨v, t, rfl⟩ := List.exists_cons_of_ne_nil hne
  intro u hu
  cases hu
  exact h v List.mem_cons_self

variable {t : Text}

/-! ## 2. Trimming -/

/-- A trimmed text does not end in a blank. -/
theorem isBlank_getLast_trimEnd : ∀ u ∈ t.trimEnd.getLast?, u.isBlank = false := by
  induction t with
  | nil => simp [trimEnd]
  | cons v t ih =>
    intro u hu
    rw [trimEnd] at hu
    cases hrest : trimEnd t with
    | nil =>
      rw [hrest] at hu
      cases hv : v.isBlank with
      | true => simp [hv] at hu
      | false =>
        simp only [hv, Bool.false_eq_true, if_false, List.getLast?_singleton, Option.mem_some] at hu
        rw [← hu]
        exact hv
    | cons w kept =>
      -- something is kept behind `v`, so both texts end alike
      rw [hrest] at hu ih
      exact ih u (by simpa [List.getLast?_cons] using hu)

/-- A text that does not end in a blank is not trimmed. -/
theorem trimEnd_eq_self (h : ∀ u ∈ t.getLast?, u.isBlank = false) : t.trimEnd = t := by
  induction t with
  | nil => rfl
  | cons u t ih =>
    cases t with
    | nil =>
      have hu : u.isBlank = false := h u (by simp)
      simp [trimEnd, hu]
    | cons v t =>
      have hrest : trimEnd (v :: t) = v :: t :=
        ih fun w hw => h w (by simpa [List.getLast?_cons] using hw)
      rw [trimEnd, hrest]

/-- A text that does not begin with a blank is not trimmed there. -/
theorem trimStart_eq_self (h : ∀ u ∈ t.head?, u.isBlank = false) : t.trimStart = t := by
  cases t with
  | nil => rfl
  | cons u t =>
    have hu : u.isBlank = false := h u (by simp)
    rw [trimStart, List.dropWhile_cons_of_neg (by simp [hu])]

theorem prefix_trimEnd (t : Text) : t.trimEnd <+: t := by
  induction t with
  | nil => exact List.prefix_refl _
  | cons u t ih =>
    rw [trimEnd]
    cases hrest : trimEnd t with
    | nil =>
      cases u.isBlank with
      | true => exact List.nil_prefix
      | false => exact List.prefix_cons_inj u |>.2 List.nil_prefix
    | cons v kept =>
      rw [hrest] at ih
      exact List.prefix_cons_inj u |>.2 ih

/-- A trimmed text stands in the text. -/
theorem trim_infix (t : Text) : t.trim <:+: t :=
  (prefix_trimEnd _).isInfix.trans (List.dropWhile_suffix _).isInfix

/-- A text without blanks is not trimmed. -/
theorem trim_eq_self (h : ∀ u ∈ t, u.isBlank = false) : t.trim = t := by
  rw [trim, trimStart_eq_self fun u hu => h u (List.mem_of_mem_head? hu)]
  exact trimEnd_eq_self fun u hu => h u (List.mem_of_getLast? hu)

/-! ## 3. Cutting -/

/-- What is before the cut begins the text, and what is behind it ends the text. -/
theorem prefix_of_cut {token before after : Text} (h : cut token t = some (before, after)) :
    before <+: t ∧ after <:+ t := by
  -- the token is found here, or further on in the rest
  induction t generalizing before with
  | nil =>
    rw [cut] at h
    split at h
    · cases h
      exact ⟨List.prefix_refl _, List.suffix_refl _⟩
    · cases h
  | cons u t ih =>
    rw [cut] at h
    split at h
    · cases h
      exact ⟨List.nil_prefix, List.drop_suffix _ _⟩
    · obtain ⟨parts, hparts, heq⟩ := Option.map_eq_some_iff.1 h
      cases heq
      have hrest := ih hparts
      exact ⟨List.prefix_cons_inj u |>.2 hrest.1, hrest.2.trans (List.suffix_cons u t)⟩

/-- The pieces of a text stand in it, the first one at its beginning. -/
theorem infix_of_mem_splitAt {separator : CodeUnit} :
    (∀ first ∈ (splitAt separator t).head?, first <+: t) ∧
      ∀ piece ∈ splitAt separator t, piece <:+: t := by
  induction t with
  | nil => simp [splitAt]
  | cons u t ih =>
    obtain ⟨hfirst, hpieces⟩ := ih
    have hbehind (piece : Text) (h : piece <:+: t) : piece <:+: u :: t :=
      h.trans (List.suffix_cons u t).isInfix
    rw [splitAt]
    by_cases hu : u = separator
    · rw [if_pos hu]
      refine ⟨fun first h => by cases h; exact List.nil_prefix, List.forall_mem_cons.2 ⟨?_, ?_⟩⟩
      · exact List.nil_prefix.isInfix
      · exact fun piece hpiece => hbehind piece (hpieces piece hpiece)
    · rw [if_neg hu]
      -- a text that does not begin with the separator adds its unit to the first piece of the rest
      cases hsplit : splitAt separator t with
      | nil =>
        have hone : [u] <+: u :: t := List.prefix_cons_inj u |>.2 List.nil_prefix
        exact ⟨fun first h => by cases h; exact hone, List.forall_mem_singleton.2 hone.isInfix⟩
      | cons first rest =>
        rw [hsplit] at hfirst hpieces
        have hone : u :: first <+: u :: t := List.prefix_cons_inj u |>.2 (hfirst first rfl)
        refine ⟨fun first h => by cases h; exact hone, List.forall_mem_cons.2 ⟨hone.isInfix, ?_⟩⟩
        exact fun piece hpiece => hbehind piece (hpieces piece (List.mem_cons_of_mem _ hpiece))

/-! ## 4. Code points -/

/-- A unit that is no half of a pair is a code point of its own. -/
theorem mem_points {u : CodeUnit} (hhigh : u.isHigh = false) (hlow : u.isLow = false) {t : Text}
    (h : u ∈ t) : u.toNat ∈ t.points := by
  fun_induction points t with
  | case1 => cases h
  | case2 v => rw [List.mem_singleton.1 h]; exact List.mem_singleton_self _
  | case3 v w rest hpair ih =>
    -- it is neither half of this pair, so it stands behind it
    rw [Bool.and_eq_true] at hpair
    rcases List.mem_cons.1 h with rfl | h
    · rw [hhigh] at hpair
      cases hpair.1
    · rcases List.mem_cons.1 h with rfl | h
      · rw [hlow] at hpair
        cases hpair.2
      · exact List.mem_cons_of_mem _ (ih h)
  | case4 v w rest hpair ih =>
    rcases List.mem_cons.1 h with rfl | h
    · exact List.mem_cons_self
    · exact List.mem_cons_of_mem _ (ih h)

end Text

/-! ## 5. Names of variables -/

/-- What goes on the name of a variable is printable in ASCII. -/
theorem toNat_of_continuesVariable {u : CodeUnit} (h : continuesVariable u = true) :
    33 ≤ u.toNat ∧ u.toNat ≤ 126 := by
  simp only [continuesVariable, beginsVariable, Bool.or_eq_true, beq_iff_eq, CodeUnit.isLetter_iff,
    CodeUnit.isDigit_iff] at h
  rcases h with ((hletter | rfl) | rfl) | hdigit
  · omega
  · decide
  · decide
  · omega

theorem continuesVariable_of_mem {name : Text} (h : isVariableName name = true) :
    ∀ u ∈ name, continuesVariable u = true := by
  cases name with
  | nil => cases h
  | cons u rest =>
    rw [isVariableName, Bool.and_eq_true] at h
    refine List.forall_mem_cons.2 ⟨?_, List.all_eq_true.1 h.2⟩
    rw [continuesVariable, h.1, Bool.true_or]

end PromptTemplate
