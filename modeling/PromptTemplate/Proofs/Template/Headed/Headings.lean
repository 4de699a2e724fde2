/-
`Headings.lean` -- markers and bounds before the options of a block.

A heading is read unit by unit: its marker, the digits on either side of a hyphen, and a
separator between dollar signs if one is written. Taken as a text it is never a number, because a
marker stands in front of the first digit or a dollar sign behind the last
(`Heading.tests`); and none of its units is an operator, so it always compiles as a pattern.
-/
import PromptTemplate.Proofs.Files.Paths
import PromptTemplate.Proofs.Template.Headed.Words

set_option autoImplicit false

namespace PromptTemplate

namespace Template

/-! ## 1. Bounds and headings -/

/-- The bounds of a variant as they can be written. -/
inductive Span
  | exactly (count : Numeral)
  | between (least most : Numeral) (ordered : least.value ≤ most.value)
  | atLeast (least : Numeral)
  | atMost (most : Numeral) (positive : 1 ≤ most.value)

namespace Span

/-- The lower bound, if one is written; a count alone is both bounds. -/
def least : Span → Option Nat
  | exactly count => some count.value
  | between least _ _ => some least.value
  | atLeast least => some least.value
  | atMost _ _ => none

/-- The upper bound, if one is written. -/
def most : Span → Option Nat
  | exactly count => some count.value
  | between _ most _ => some most.value
  | atLeast _ => none
  | atMost most _ => some most.value

/-- The digits in front. -/
def front : Span → Text
  | exactly count => count.text
  | between least _ _ => least.text
  | atLeast least => least.text
  | atMost _ _ => []

/-- The hyphen and the digits behind it, unless a count stands alone. -/
def back : Span → Text
  | exactly _ => []
  | between _ most _ => units "-" ++ most.text
  | atLeast _ => units "-"
  | atMost most _ => units "-" ++ most.text

end Span

/-- What stands before the options of a block: a marker, bounds with a separator or without
one, or a marker and then bounds. -/
structure Heading where
  sampling : Option Sampling
  bounds : Option (Span × Option Word)
  declares : sampling.isSome = true ∨ bounds.isSome = true

/-- The separator behind the bounds as it is written, if there is one. -/
def printSeparator (separator : Option Word) : Text :=
  match separator with
  | some separator => separator.text ++ units "$$"
  | none => []

/-- Bounds with their separator, as they are written. -/
def printSpan (bounds : Span × Option Word) : Text :=
  bounds.1.front ++ (bounds.1.back ++ (units "$$" ++ printSeparator bounds.2))

/-- The heading as it is written. -/
def Heading.print (heading : Heading) : Text :=
  Command.markerText heading.sampling ++ (heading.bounds.map printSpan).getD []

/-- What the heading declares of a variant. -/
def Heading.settings (heading : Heading) : Command.VariantSettings where
  least := (heading.bounds.bind (·.1.least)).map Number.ofNat
  most := (heading.bounds.bind (·.1.most)).map Number.ofNat
  separator := heading.bounds.bind (·.2.map Word.text)
  sampling := heading.sampling

/-! ## 2. Units -/

/-- The marks of a heading: those of the sampling methods, the hyphen and the dollar sign. -/
def headingMarks : Text := [33, 36, 45, 64, 126]

/-- A unit of a heading: a digit, a unit of a word, or a mark. -/
def InHeading (u : CodeUnit) : Prop := u.isDigit = true ∨ InWord u ∨ u ∈ headingMarks

/-- A unit of a heading is no blank. -/
theorem InHeading.isBlank {u : CodeUnit} (hu : InHeading u) : u.isBlank = false := by
  rcases hu with hdigit | hword | hmark
  · exact isBlank_of_isDigit hdigit
  · exact hword.isBlank
  · have hmarks : ∀ v ∈ headingMarks, v.isBlank = false := Text.forall_of_all (by decide)
    exact hmarks u hmark

/-- Nor a mark that is none of a heading. -/
theorem InHeading.ne {u v : CodeUnit} (hu : InHeading u)
    (hv : v.isDigit = false ∧ v.isLetter = false ∧ v.toNat ≤ 127 ∧ v ∉ headingMarks) :
    u ≠ v := by
  obtain ⟨hdigit, hletter, hascii, hmark⟩ := hv
  rcases hu with hu | hu | hu
  · exact CodeUnit.ne_of_isDigit hu hdigit
  · exact hu.ne ⟨hletter, hascii⟩
  · exact ne_of_mem_of_not_mem hu hmark

/-- The units of a heading end no pattern. -/
theorem InHeading.notMem {u : CodeUnit} (hu : InHeading u) : u ∉ [58, 123, 124, 125] := by
  have hmarks : ∀ v ∈ ([58, 123, 124, 125] : Text), v.isDigit = false ∧ v.isLetter = false ∧
      v.toNat ≤ 127 ∧ v ∉ headingMarks := Text.forall_of_all (by decide)
  exact fun hmem => hu.ne (hmarks u hmem) rfl

/-- No unit of a heading is an operator of a regular expression. -/
theorem InHeading.spells {u : CodeUnit} (hu : InHeading u) : Pattern.Spells u := by
  have hmarks : ∀ v ∈ Pattern.operators, v.isDigit = false ∧ v.isLetter = false ∧
      v.toNat ≤ 127 ∧ v ∉ headingMarks := Text.forall_of_all (by decide)
  exact fun hmem => hu.ne (hmarks u hmem) rfl

/-- In front of the dash there are digits. -/
theorem isDigit_front (span : Span) : ∀ u ∈ span.front, u.isDigit = true := by
  cases span with
  | exactly count => exact count.digits
  | between least => exact least.digits
  | atLeast least => exact least.digits
  | atMost => exact nofun

/-- Behind it there is the dash and then digits. -/
theorem inHeading_back (span : Span) : ∀ u ∈ span.back, InHeading u := by
  have hhyphen : InHeading 45 := .inr (.inr (by decide))
  cases span with
  | exactly => exact nofun
  | between least most =>
    exact List.forall_mem_cons.2 ⟨hhyphen, fun u hu => .inl (most.digits u hu)⟩
  | atLeast => exact List.forall_mem_cons.2 ⟨hhyphen, nofun⟩
  | atMost most => exact List.forall_mem_cons.2 ⟨hhyphen, fun u hu => .inl (most.digits u hu)⟩

/-- Bounds and separator are made of units of a heading. -/
theorem inHeading_printSpan (bounds : Span × Option Word) :
    ∀ u ∈ printSpan bounds, InHeading u := by
  have hdollars : ∀ u ∈ units "$$", InHeading u := by
    have hdollar : InHeading 36 := .inr (.inr (by decide))
    exact List.forall_mem_cons.2 ⟨hdollar, List.forall_mem_singleton.2 hdollar⟩
  obtain ⟨span, separator⟩ := bounds
  simp only [printSpan, printSeparator, List.forall_mem_append]
  refine ⟨fun u hu => .inl (isDigit_front span u hu), inHeading_back span, hdollars, ?_⟩
  cases separator with
  | none => exact nofun
  | some separator =>
    exact List.forall_mem_append.2 ⟨fun u hu => .inr (.inl (separator.letters u hu)), hdollars⟩

/-- So is every heading. -/
theorem inHeading_print (heading : Heading) : ∀ u ∈ heading.print, InHeading u := by
  rw [Heading.print, List.forall_mem_append]
  constructor
  · cases heading.sampling with
    | none => exact nofun
    | some method =>
      exact List.forall_mem_singleton.2 (.inr (.inr (by cases method <;> decide)))
  · cases heading.bounds with
    | none => exact nofun
    | some bounds => exact inHeading_printSpan bounds

/-! ## 3. Reading bounds -/

variable {s : Setting} {inner : Inner} {rest : Text}

/-- The options of a block hold no dollar sign and no brace. -/
theorem join_options_units (options : List WrittenOption) :
    ∀ u ∈ Text.join (units "|") (options.map WrittenOption.print), u ∉ [36, 123, 125] := by
  have hdigit : ∀ v ∈ ([36, 123, 125] : Text), v.isDigit = false := Text.forall_of_all (by decide)
  have hword : ∀ v ∈ ([36, 123, 125] : Text), v.isLetter = false ∧ v.toNat ≤ 127 :=
    Text.forall_of_all (by decide)
  intro u hu hmark
  -- a unit stands in a bar between options, in a weight, in the colons behind it, or in a word
  rcases Text.mem_join hu with hbar | ⟨piece, hpiece, hu⟩
  · cases List.mem_singleton.1 hbar
    exact absurd hmark (by decide)
  · obtain ⟨⟨weight, word⟩, -, rfl⟩ := List.mem_map.1 hpiece
    rcases List.mem_append.1 hu with hu | hu
    · cases weight with
      | none => cases hu
      | some weight =>
        rcases List.mem_append.1 hu with hu | hu
        · exact CodeUnit.ne_of_isDigit (weight.digits u hu) (hdigit u hmark) rfl
        · have hcolon : u = 58 := by simpa [show units "::" = [58, 58] from rfl] using hu
          rw [hcolon] at hmark
          exact absurd hmark (by decide)
    · exact (word.letters u hu).ne (hword u hmark) rfl

/-- Where no dollars follow there is no separator. -/
theorem refuses_rawSeparator (hs : s.grammar = .standard) {body : Text}
    (h : ∀ u ∈ body, u ∉ [36, 123, 125]) :
    (rawSeparator s).Refuses (body ++ (units "\x7d" ++ rest)) := by
  have hstops : units "$" ++ Grammar.standard.variantStart ++ Grammar.standard.variantEnd =
      [36, 123, 125] := rfl
  have hunits : ∀ u ∈ body, (!([36, 123, 125] : Text).contains u) = true := fun u hu => by
    simpa using h u hu
  rw [rawSeparator, hs, hstops]
  refine .bind_reads (Reader.reads_takeWhile hunits fun u hu => by cases hu; decide) fun raw _ => ?_
  by_cases hempty : raw.isEmpty = true
  · exact .ite hempty .reject
  · exact .ite_neg hempty (.bind (Reader.refuses_accept rfl))

/-- A separator is there if it was written. -/
theorem reads_separator (hs : s.grammar = .standard) (separator : Option Word) {body : Text}
    (h : ∀ u ∈ body, u ∉ [36, 123, 125]) :
    (Reader.attempt (rawSeparator s)).Reads
      (printSeparator separator ++ (body ++ (units "\x7d" ++ rest)))
      (body ++ (units "\x7d" ++ rest)) (· = separator.map Word.text) := by
  cases separator with
  | none => exact (refuses_rawSeparator hs h).attempt
  | some separator =>
    have hmarks : ∀ v ∈ ([36, 123, 125] : Text), v.isLetter = false ∧ v.toNat ≤ 127 :=
      Text.forall_of_all (by decide)
    have hunits : ∀ u ∈ separator.text, u ∉ [36, 123, 125] :=
      fun u hu hmark => (separator.letters u hu).ne (hmarks u hmark) rfl
    rw [printSeparator, List.append_assoc]
    exact (reads_rawSeparator hs separator.nonempty hunits).attempt.mono
      fun _ ⟨_, hsome, hraw⟩ => hsome.trans (congrArg some hraw)

/-- The digits of the upper bound; those of a count alone are both bounds. -/
def Span.upper : Span → Text
  | exactly count => count.text
  | between _ most _ => most.text
  | atLeast _ => []
  | atMost most _ => most.text

/-- The first number is the lower bound. -/
theorem Span.namedBy_front (span : Span) : namedBy span.front = span.least := by
  cases span with
  | exactly count => exact namedBy_digits count.nonempty
  | between least => exact namedBy_digits least.nonempty
  | atLeast least => exact namedBy_digits least.nonempty
  | atMost => rfl

/-- The last one is the upper bound. -/
theorem Span.namedBy_upper (span : Span) : namedBy span.upper = span.most := by
  cases span with
  | exactly count => exact namedBy_digits count.nonempty
  | between _ most => exact namedBy_digits most.nonempty
  | atLeast => rfl
  | atMost most => exact namedBy_digits most.nonempty

/-- Both are below the limit. -/
theorem Span.small (span : Span) :
    ∀ digits ∈ [span.front, span.upper], Text.digitsValue digits ≤ boundLimit := by
  have hnumeral : ∀ numeral : Numeral, Text.digitsValue numeral.text ≤ boundLimit := by
    intro numeral
    have := numeral.small
    rw [boundLimit]
    omega
  have hempty : Text.digitsValue [] ≤ boundLimit := Nat.zero_le _
  simp only [List.forall_mem_cons]
  cases span with
  | exactly count => exact ⟨hnumeral count, hnumeral count, List.forall_mem_nil _⟩
  | between least most => exact ⟨hnumeral least, hnumeral most, List.forall_mem_nil _⟩
  | atLeast least => exact ⟨hnumeral least, hempty, List.forall_mem_nil _⟩
  | atMost most => exact ⟨hempty, hnumeral most, List.forall_mem_nil _⟩

/-- One of them is there. -/
theorem Span.nonempty (span : Span) : (span.front.isEmpty && span.upper.isEmpty) = false := by
  have hnumeral : ∀ numeral : Numeral, numeral.text.isEmpty = false := fun numeral => by
    simpa using numeral.nonempty
  cases span with
  | exactly count => simp [front, hnumeral count]
  | between least => simp [front, hnumeral least]
  | atLeast least => simp [front, hnumeral least]
  | atMost most => simp [upper, hnumeral most]

/-- Behind the dash the upper bound is read. -/
theorem Span.reads_upperDigits (span : Span) (tail : Text) :
    (upperDigits span.front).Reads (span.back ++ (units "$$" ++ tail)) (units "$$" ++ tail)
      (· = span.upper) := by
  cases span with
  | exactly count => exact reads_upperDigits_self _ fun u hu => by cases hu; decide
  | between least most =>
    rw [back, List.append_assoc]
    exact Template.reads_upperDigits _ most.digits tail
  | atLeast least =>
    have hnone : ∀ u ∈ ([] : Text), u.isDigit = true := nofun
    exact Template.reads_upperDigits _ hnone tail
  | atMost most =>
    rw [back, List.append_assoc]
    exact Template.reads_upperDigits _ most.digits tail

/-- Behind the digits in front stands a hyphen or a dollar sign. -/
theorem Span.head_back (span : Span) (tail : Text) :
    ∀ u ∈ (span.back ++ (units "$$" ++ tail)).head?, u = 36 ∨ u = 45 := by
  cases span with
  | _ => exact fun u hu => by cases hu; decide

/-- Bounds that were written are read. -/
theorem reads_bounds_span (hs : s.grammar = .standard) (bounds : Span × Option Word) {body : Text}
    (h : ∀ u ∈ body, u ∉ [36, 123, 125]) :
    (Template.bounds s).Reads (printSpan bounds ++ (body ++ (units "\x7d" ++ rest)))
      (body ++ (units "\x7d" ++ rest))
      (· = (bounds.1.least, bounds.1.most, bounds.2.map Word.text)) := by
  -- what is printed is split where the readers of bounds and separator stop
  obtain ⟨span, separator⟩ := bounds
  have hstop : ∀ tail, ∀ u ∈ (span.back ++ (units "$$" ++ tail)).head?, u.isDigit = false := by
    intro tail u hu
    rcases span.head_back tail u hu with rfl | rfl <;> rfl
  have hprint : printSpan (span, separator) ++ (body ++ (units "\x7d" ++ rest)) =
      span.front ++ (span.back ++ (units "$$" ++
        (printSeparator separator ++ (body ++ (units "\x7d" ++ rest))))) := by
    simp only [printSpan, List.append_assoc]
  rw [hprint]
  refine (reads_bounds_of s (isDigit_front span) (hstop _) (span.reads_upperDigits _) span.nonempty
    span.small (reads_separator hs separator h)).mono fun found hfound => ?_
  rw [hfound, span.namedBy_front, span.namedBy_upper]
  cases separator with
  | none => rfl
  | some word =>
    simp only [Option.map_some, normalizeSeparator_eq_self fun u hu => (word.letters u hu).isBlank]

/-! ## 4. Headings as texts -/

/-- Bounds begin with a digit or a hyphen. -/
theorem head_printSpan (bounds : Span × Option Word) (rest : Text) :
    ∀ u ∈ (printSpan bounds ++ rest).head?, u.isDigit = true ∨ u = 45 := by
  obtain ⟨span, separator⟩ := bounds
  rw [printSpan, List.append_assoc]
  cases span with
  | exactly count => exact fun u hu => .inl (count.head _ u hu)
  | between least => exact fun u hu => .inl (least.head _ u hu)
  | atLeast least => exact fun u hu => .inl (least.head _ u hu)
  | atMost => exact fun u hu => .inr (by cases hu; rfl)

/-- There is something to a heading. -/
theorem Heading.print_ne_nil (heading : Heading) : heading.print ≠ [] := by
  obtain ⟨sampling, bounds, hsome⟩ := heading
  intro hempty
  obtain ⟨hmarker, hbounds⟩ := List.append_eq_nil_iff.1 hempty
  cases sampling with
  | some method => cases hmarker
  | none =>
    cases bounds with
    | none => simp at hsome
    | some bounds =>
      have hdollars : units "$$" ≠ [] := by decide
      simp [printSpan, hdollars] at hbounds

/-- A heading begins with no blank and no asterisk. -/
theorem Heading.head (heading : Heading) (rest : Text) :
    ∀ u ∈ (heading.print ++ rest).head?, u.isBlank = false ∧ u ≠ 42 := by
  intro u hu
  have hunit := Text.head_append heading.print_ne_nil (inHeading_print heading) rest u hu
  exact ⟨hunit.isBlank, hunit.ne (by decide)⟩

/-- A marker begins neither a number nor a name. -/
theorem marker_units (method : Sampling) :
    (method.marker.isDigit = false ∧ method.marker ≠ 46) ∧ beginsVariable method.marker = false ∧
      method.marker ≠ 43 ∧ method.marker ≠ 45 ∧ method.marker.toLower.isLetter = false := by
  cases method <;> decide

/-- What does not begin like the names of numbers and holds no number in front is none. -/
theorem isNumberLike_eq_false_of_head {u : CodeUnit} {t : Text} (hplus : u ≠ 43) (hminus : u ≠ 45)
    (hu : u.toLower.isLetter = false)
    (hsplit : ∀ taken rest, splitReal? (u :: t) = some (taken, rest) →
      Decimal.exponent? rest = none) :
    isNumberLike (u :: t) = false := by
  -- no sign and no letter stands first, so only a number could be read, without an exponent here
  have hsign : ¬((u = 43 || u = 45) = true) := by simp [hplus, hminus]
  have hname : ∀ (v : CodeUnit) (name : Text), v.isLetter = true →
      (u :: t).map CodeUnit.toLower ≠ v :: name := by
    intro v name hv heq
    rw [List.map_cons] at heq
    rw [(List.cons.inj heq).1, hv] at hu
    cases hu
  have hinf : (u :: t).map CodeUnit.toLower ≠ units "inf" := hname 105 _ rfl
  have hinfinity : (u :: t).map CodeUnit.toLower ≠ units "infinity" := hname 105 _ rfl
  have hnan : (u :: t).map CodeUnit.toLower ≠ units "nan" := hname 110 _ rfl
  simp only [isNumberLike, if_neg hsign, hinf, hinfinity, hnan, decide_false, Bool.or_self,
    Bool.false_eq_true, if_false]
  split
  · next taken rest heq => rw [hsplit taken rest heq]; rfl
  · rfl

/-- A number is not one any more with a hyphen or a dollar sign behind it. -/
theorem isNumberLike_numeral (numeral : Numeral) {rest : Text}
    (hne : rest ≠ []) (hrest : ∀ u ∈ rest.head?, u = 36 ∨ u = 45) :
    isNumberLike (numeral.text ++ rest) = false := by
  obtain ⟨text, hsome, hdigits, -⟩ := numeral
  -- the digits are read as far as they go; what follows is no exponent
  have hsplit : splitReal? (text ++ rest) = some (text, rest) := by
    refine splitReal?_digits hsome hdigits fun u hu => ?_
    rcases hrest u hu with rfl | rfl <;> decide
  have hexponent : Decimal.exponent? rest = none := by
    obtain ⟨v, rest, rfl⟩ := List.exists_cons_of_ne_nil hne
    rcases hrest v rfl with rfl | rfl <;> rfl
  obtain ⟨u, text, rfl⟩ := List.exists_cons_of_ne_nil hsome
  have hu : u.isDigit = true := hdigits u List.mem_cons_self
  have hlower : u.toLower.isLetter = false := by
    have hbounds := CodeUnit.isDigit_iff.1 hu
    have hsame : u.toLower = u := by
      rw [CodeUnit.toLower, if_neg]
      simp [UInt16.le_iff_toNat_le]
      omega
    rw [hsame]
    exact Bool.eq_false_iff.2 fun hletter => by
      have := CodeUnit.isLetter_iff.1 hletter
      omega
  refine isNumberLike_eq_false_of_head (CodeUnit.ne_of_isDigit hu rfl)
    (CodeUnit.ne_of_isDigit hu rfl) hlower fun taken rest' heq => ?_
  have hsame := hsplit.symm.trans heq
  cases hsame
  exact hexponent

/-- A hyphen before a number is its sign. -/
theorem isNumberLike_hyphen {t : Text} (h : ∀ u ∈ t.head?, u ≠ 43 ∧ u ≠ 45) :
    isNumberLike (45 :: t) = isNumberLike t := by
  cases t with
  | nil => rfl
  | cons u t =>
    obtain ⟨hplus, hminus⟩ := h u rfl
    have hsign : ¬((u = 43 || u = 45) = true) := by simp [hplus, hminus]
    simp [isNumberLike, hsign]

/-- What does not begin like a name tests no variable. -/
theorem splitKey_eq_none {t : Text} (h : ∀ u ∈ t.head?, beginsVariable u = false) :
    splitKey t = (none, t) := by
  cases t with
  | nil => rfl
  | cons u t => simp [splitKey, h u rfl]

/-- A digit does not begin a name, but goes on with one. -/
theorem beginsVariable_of_isDigit {u : CodeUnit} (hu : u.isDigit = true) :
    beginsVariable u = false ∧ continuesVariable u = true := by
  have hletter : u.isLetter = false := Bool.eq_false_iff.2 fun h => by
    rw [(CodeUnit.isBlank_of_isLetter h).2] at hu
    cases hu
  have hscore : u ≠ 95 := CodeUnit.ne_of_isDigit hu rfl
  have hhyphen : u ≠ 45 := CodeUnit.ne_of_isDigit hu rfl
  exact ⟨by simp [beginsVariable, hletter, hscore, hhyphen], by simp [continuesVariable, hu]⟩

/-- Dollars end a name, and stand for no tilde. -/
theorem splitKey_hyphen (numeral : Numeral) (rest : Text) :
    splitKey (45 :: (numeral.text ++ (units "$$" ++ rest))) =
      (none, 45 :: (numeral.text ++ (units "$$" ++ rest))) := by
  have hname : ∀ u ∈ (45 :: numeral.text : Text), continuesVariable u = true :=
    List.forall_mem_cons.2 ⟨rfl, fun u hu => (beginsVariable_of_isDigit (numeral.digits u hu)).2⟩
  have hstop : ∀ u ∈ (units "$$" ++ rest).head?, continuesVariable u = false :=
    fun u hu => by cases hu; rfl
  have hdrop : (45 :: (numeral.text ++ (units "$$" ++ rest))).dropWhile continuesVariable =
      units "$$" ++ rest := (takeWhile_append_stop hname hstop).2
  have htrim : Text.trimStart (units "$$" ++ rest) = 36 :: 36 :: rest := rfl
  simp only [splitKey, hdrop, htrim]
  exact ite_self _

/-- Bounds are written number by number. -/
theorem printSpan_append (bounds : Span × Option Word) (rest : Text) :
    printSpan bounds ++ rest =
      bounds.1.front ++ (bounds.1.back ++ (units "$$" ++ (printSeparator bounds.2 ++ rest))) := by
  simp only [printSpan, List.append_assoc]

/-- A text with bounds in front is no number, and tests no variable. -/
theorem printSpan_tests (bounds : Span × Option Word) (rest : Text) :
    isNumberLike (printSpan bounds ++ rest) = false ∧
      splitKey (printSpan bounds ++ rest) = (none, printSpan bounds ++ rest) := by
  rw [printSpan_append]
  generalize printSeparator bounds.2 ++ rest = more
  have hfront : ∀ numeral : Numeral, bounds.1.front = numeral.text →
      isNumberLike (bounds.1.front ++ (bounds.1.back ++ (units "$$" ++ more))) = false ∧
        splitKey (bounds.1.front ++ (bounds.1.back ++ (units "$$" ++ more))) =
          (none, bounds.1.front ++ (bounds.1.back ++ (units "$$" ++ more))) := by
    intro numeral hnumeral
    rw [hnumeral]
    refine ⟨isNumberLike_numeral numeral ?_ (bounds.1.head_back _), splitKey_eq_none fun u hu => ?_⟩
    · exact List.append_ne_nil_of_right_ne_nil _ (List.cons_ne_nil _ _)
    · exact (beginsVariable_of_isDigit (numeral.head _ u hu)).1
  cases hspan : bounds.1 with
  | exactly count => simpa only [hspan] using hfront count (by rw [hspan]; rfl)
  | between least => simpa only [hspan] using hfront least (by rw [hspan]; rfl)
  | atLeast least => simpa only [hspan] using hfront least (by rw [hspan]; rfl)
  | atMost most =>
    -- the hyphen may be a sign or begin a name, and the dollars behind the number rule out both
    have hsign : ∀ u ∈ (most.text ++ (units "$$" ++ more)).head?, u ≠ 43 ∧ u ≠ 45 := fun u hu =>
      ⟨CodeUnit.ne_of_isDigit (most.head _ u hu) rfl, CodeUnit.ne_of_isDigit (most.head _ u hu) rfl⟩
    have hnumber : isNumberLike (most.text ++ (units "$$" ++ more)) = false :=
      isNumberLike_numeral most (List.cons_ne_nil 36 (36 :: more)) fun u hu => by cases hu; decide
    simp only [Span.front, Span.back, List.nil_append, List.append_assoc]
    exact ⟨(isNumberLike_hyphen hsign).trans hnumber, splitKey_hyphen most _⟩

/-- A text with a heading in front is no number, and tests no variable. -/
theorem Heading.tests (heading : Heading) (rest : Text) :
    isNumberLike (heading.print ++ rest) = false ∧
      splitKey (heading.print ++ rest) = (none, heading.print ++ rest) := by
  obtain ⟨sampling, bounds, hsome⟩ := heading
  -- a method is marked by a unit that begins neither a number nor a name;
  -- bounds begin with a digit
  cases sampling with
  | some method =>
    obtain ⟨hnumber, hname, hplus, hminus, hlower⟩ := marker_units method
    have hprint : Heading.print ⟨some method, bounds, hsome⟩ ++ rest =
        method.marker :: ((bounds.map printSpan).getD [] ++ rest) := rfl
    rw [hprint]
    refine ⟨isNumberLike_eq_false_of_head hplus hminus hlower fun taken rest' heq => ?_,
      splitKey_eq_none fun u hu => by cases hu; exact hname⟩
    rw [splitReal?_eq_none fun u hu => by cases hu; exact hnumber] at heq
    cases heq
  | none =>
    cases bounds with
    | none => simp at hsome
    | some bounds => exact printSpan_tests bounds rest

end Template

end PromptTemplate
