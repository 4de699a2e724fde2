/-
`Variants.lean` -- reading a printed variant.

Every block in braces is tried as a probability and as a condition first, so a printed
variant must be refused by both. What stands before its first colons decides: a weight is
a number and so no pattern, and the bar behind its option is not the end of a probability;
a marker, bounds or an operand without a weight hold no colon.
-/
import PromptTemplate.Proofs.Template.Printed.Conditions

set_option autoImplicit false

namespace PromptTemplate.Template

variable {s : Setting} {inner : Inner} {rest : Text}

/-! ## 1. Options -/

/-- The units that an option can begin with, or what ends it. -/
def BeginsOption (u : CodeUnit) : Prop := u.isDigit = true ∨ BeginsOperand u

/-- An option begins with no blank. -/
theorem BeginsOption.isBlank {u : CodeUnit} (h : BeginsOption u) : u.isBlank = false := by
  rcases h with hdigit | hoperand
  · have := CodeUnit.isDigit_iff.1 hdigit
    exact CodeUnit.isBlank_eq_false (by omega) (by omega)
  · exact hoperand.isBlank.1

/-- Nor with a mark that is none of its own. -/
theorem BeginsOption.ne {u v : CodeUnit} (h : BeginsOption u) (hdigit : v.isDigit = false)
    (hletter : v.isLetter = false) (hmark : v ∉ [123, 36, 37, 95, 124, 125]) : u ≠ v := by
  rcases h with hu | hu
  · exact CodeUnit.ne_of_isDigit hu hdigit
  · exact hu.ne hletter hmark

/-- Digits can begin an option. -/
theorem beginsOption_digits {digits : Text} (hne : digits ≠ [])
    (hdigits : ∀ u ∈ digits, u.isDigit = true) :
    ∀ u ∈ (digits ++ rest).head?, BeginsOption u :=
  Text.head_append hne (fun u hu => .inl (hdigits u hu)) rest

/-- An option as it is printed. -/
def printOption (option : Weighted Command) : Text :=
  Command.printWeight option.weight ++ option.value.print

/-- What is read is the option. -/
structure ReadsAsOption (option : Weighted Command) (read : Option Number × Command) : Prop where
  weight : read.1.getD 1 = .finite option.weight
  value : option.value.Alike read.2

/-- An option whose value the recursive call reads back. -/
structure Inner.ReadsOption (inner : Inner) (option : Weighted Command) : Prop where
  weight : ∃ n : Nat, 0 < n ∧ n < 1000000 ∧ option.weight = n
  value : option.value.PrintableOperand
  reads : inner.ReadsBack option.value

/-- A weight of one is not printed, and any other with its digits. -/
theorem printWeight_natCast {n : Nat} (hpos : 0 < n) (hlt : n < 1000000) :
    (n = 1 ∧ Command.printWeight n = []) ∨ Command.printWeight n = Text.ofNat n ++ units "::" := by
  by_cases hone : n = 1
  · subst hone
    exact .inl ⟨rfl, rfl⟩
  · have hcast : ¬(n : Rat) = 1 := fun h => hone (by exact_mod_cast h)
    have hexact : n < Binary64.exactUpTo := Nat.lt_trans hlt (by decide)
    exact .inr (by rw [Command.printWeight, if_neg hcast, Decimal.ofRat_natCast hpos hexact])

/-- Colons are no number. -/
theorem colons_noNumber (rest : Text) :
    ∀ u ∈ (units "::" ++ rest).head?, u.isDigit = false ∧ u ≠ 46 :=
  fun u hu => by cases hu; decide

/-- Digits before colons are the weight that they name. -/
theorem reads_weight_digits (s : Setting) (start : Cursor) {digits : Text} (hne : digits ≠ [])
    (hdigits : ∀ u ∈ digits, u.isDigit = true) {q : Rat}
    (hvalue : Number.ofText digits = .finite q) :
    (weight s start).Reads (digits ++ (units "::" ++ rest)) rest (· = .finite q) := by
  rw [weight]
  refine (reads_real hne hdigits (colons_noNumber rest)).bind fun found hread => ?_
  refine (Reader.reads_tryAccept _ _).bind fun found hfound => .ite hfound ?_
  simp only [hread, hvalue]
  exact .pure rfl

/-- A weight that is printed is read back. -/
theorem reads_weight (s : Setting) (start : Cursor) {n : Nat} (hlt : n < 1000000) :
    (weight s start).Reads (Text.ofNat n ++ (units "::" ++ rest)) rest (· = .finite n) := by
  obtain ⟨hne, hdigits⟩ := Text.ofNat_digits n
  have hexact : n < Binary64.exactUpTo := Nat.lt_trans hlt (by decide)
  exact reads_weight_digits s start hne hdigits (Number.ofText_ofNat hexact)

/-- Where no number begins there is no weight. -/
theorem refuses_weight (s : Setting) (start : Cursor) {ahead : Text}
    (h : ∀ u ∈ ahead.head?, u.isDigit = false ∧ u ≠ 46) : (weight s start).Refuses ahead := by
  rw [weight]
  exact .bind (refuses_real h)

/-- An option as it is printed begins like one. -/
theorem beginsOption_print {option : Weighted Command} (h : inner.ReadsOption option)
    (hrest : Ends .block rest) :
    ∀ u ∈ (printOption option ++ rest).head?, BeginsOption u := by
  obtain ⟨n, hpos, hlt, hweight⟩ := h.weight
  obtain ⟨hne, hdigits⟩ := Text.ofNat_digits n
  rw [printOption, hweight]
  rcases printWeight_natCast hpos hlt with ⟨-, hprint⟩ | hprint
  · rw [hprint]
    exact fun u hu => .inr (beginsOperand_print h.value hrest u hu)
  · rw [hprint, List.append_assoc, List.append_assoc]
    exact beginsOption_digits hne hdigits

/-- An option is read back from what is printed. -/
theorem reads_option (s : Setting) {option : Weighted Command} (h : inner.ReadsOption option)
    (hrest : Ends .block rest) :
    (Template.option s inner).Reads (printOption option ++ rest) rest (ReadsAsOption option) := by
  rw [Template.option]
  refine (Reader.reads_skipBlanks fun u hu => (beginsOption_print h hrest u hu).isBlank).bind
    fun _ _ => ?_
  refine .bind_here fun start _ => ?_
  have hvalue := reads_operand h.value h.reads hrest
  obtain ⟨n, hpos, hlt, hweight⟩ := h.weight
  rw [printOption, hweight]
  rcases printWeight_natCast hpos hlt with ⟨hone, hprint⟩ | hprint
  · subst hone
    rw [hprint, List.nil_append]
    -- no number begins an operand, so no weight is read and it counts once
    have hnone := refuses_weight s start fun u hu =>
      (beginsOperand_print h.value hrest u hu).noNumber
    refine hnone.attempt.bind fun found hfound => hvalue.bind fun read hread => .pure ⟨?_, hread⟩
    rw [hfound, hweight]
    rfl
  · rw [hprint, List.append_assoc, List.append_assoc]
    refine (reads_weight s start hlt).attempt.bind fun found hfound =>
      hvalue.bind fun read hread => .pure ⟨?_, hread⟩
    obtain ⟨number, rfl, hnumber⟩ := hfound
    rw [hnumber, hweight]
    rfl

/-- The options behind the first. -/
theorem reads_moreOptions (s : Setting) {options : List (Weighted Command)}
    (h : ∀ option ∈ options, inner.ReadsOption option) {rounds : Nat}
    (hrounds : options.length < rounds) :
    (moreOptions s inner rounds).Reads
      (behind (options.map printOption) (units "\x7d" ++ rest)) (units "\x7d" ++ rest)
      (List.Forall₂ ReadsAsOption options) := by
  -- one more round than options: the last one finds that the block is closed
  induction options generalizing rounds with
  | nil =>
    obtain ⟨rounds, rfl⟩ := Nat.exists_eq_succ_of_ne_zero (Nat.ne_zero_of_lt hrounds)
    rw [moreOptions]
    refine (Reader.reads_tryAccept_false rfl).bind fun found hfound => ?_
    exact .ite_neg (by simp [hfound]) (.pure .nil)
  | cons first options ih =>
    obtain ⟨rounds, rfl⟩ := Nat.exists_eq_succ_of_ne_zero (Nat.ne_zero_of_lt hrounds)
    have hends : Ends .block (behind (options.map printOption) (units "\x7d" ++ rest)) :=
      (Ends.close rest).behind _
    rw [moreOptions, List.map_cons, behind, List.foldr_cons, ← behind]
    refine (Reader.reads_tryAccept _ _).bind fun found hfound => .ite hfound ?_
    refine (reads_option s (h first List.mem_cons_self) hends).bind fun read hread => ?_
    refine (ih (fun other hmem => h other (List.mem_cons_of_mem _ hmem))
      (Nat.lt_of_succ_lt_succ hrounds)).bind fun others hothers => .pure ?_
    exact .cons hread hothers

/-! ## 2. Bounds -/

/-- The standard bounds are not printed; others are, with the separator. -/
theorem printBounds_cases (least most : Nat) (separator : Text) :
    (least = 1 ∧ most = 1 ∧ separator = Command.defaultSeparator ∧
      Command.printBounds least most separator = []) ∨
      ∀ tail, Command.printBounds least most separator ++ tail =
        Text.ofNat least ++ (units "-" ++ (Text.ofNat most ++ (units "$$" ++ (separator ++
          (units "$$" ++ tail))))) := by
  by_cases hdefault : least = 1 ∧ most = 1 ∧ separator = Command.defaultSeparator
  · exact .inl ⟨hdefault.1, hdefault.2.1, hdefault.2.2, if_pos hdefault⟩
  · refine .inr fun tail => ?_
    rw [Command.printBounds, if_neg hdefault]
    simp only [List.append_assoc]

/-- A separator without blanks is kept as it is written. -/
theorem normalizeSeparator_eq_self {separator : Text} (h : ∀ u ∈ separator, u.isBlank = false) :
    normalizeSeparator separator = separator := by
  rw [normalizeSeparator, Text.trim_eq_self h, ite_self]

/-- A separator between its marks is read as it stands. -/
theorem reads_rawSeparator (hs : s.grammar = .standard) {separator : Text} (hne : separator ≠ [])
    (h : ∀ u ∈ separator, u ∉ [36, 123, 125]) :
    (rawSeparator s).Reads (separator ++ (units "$$" ++ rest)) rest (· = separator) := by
  have hstops : units "$" ++ Grammar.standard.variantStart ++ Grammar.standard.variantEnd =
      [36, 123, 125] := rfl
  have hunits : ∀ u ∈ separator, (!([36, 123, 125] : Text).contains u) = true := fun u hu => by
    simpa using h u hu
  rw [rawSeparator, hs, hstops]
  refine (Reader.reads_takeWhile hunits fun u hu => by cases hu; decide).bind fun raw hraw => ?_
  rw [hraw]
  exact .ite_neg (by simpa using hne) ((Reader.reads_accept _ _).bind fun _ _ => .pure rfl)

/-- The units of a separator that can be printed. -/
theorem separator_units {separator : Text}
    (h : separator = Command.defaultSeparator ∨ separator.IsLetters) :
    separator ≠ [] ∧ ∀ u ∈ separator, u.isBlank = false ∧ u ∉ [36, 123, 125] := by
  rcases h with rfl | ⟨hne, hletters⟩
  · exact ⟨List.cons_ne_nil _ _, List.forall_mem_singleton.2 (by decide)⟩
  · refine ⟨hne, fun u hu => ⟨(CodeUnit.isBlank_of_isLetter (hletters u hu)).1, ?_⟩⟩
    have hmark : ∀ v : CodeUnit, v.isLetter = false → u ≠ v :=
      fun v hv => CodeUnit.ne_of_isLetter (hletters u hu) hv
    simp [hmark 36 (by decide), hmark 123 (by decide), hmark 125 (by decide)]

/-- The number that some digits name; no digits name none. -/
def namedBy (digits : Text) : Option Nat :=
  if digits.isEmpty then none else some (Text.digitsValue digits)

/-- Digits name their number. -/
theorem namedBy_digits {digits : Text} (hne : digits ≠ []) :
    namedBy digits = some (Text.digitsValue digits) := if_neg (by simpa using hne)

/-- Bounds are read from the digits of the lower one, what follows it, and a separator or none. -/
theorem reads_bounds_of (s : Setting) {lower upper ahead tail : Text} {raw : Option Text}
    (hlower : ∀ u ∈ lower, u.isDigit = true) (hstop : ∀ u ∈ ahead.head?, u.isDigit = false)
    (hupper : (upperDigits lower).Reads ahead (units "$$" ++ tail) (· = upper))
    (hsome : (lower.isEmpty && upper.isEmpty) = false)
    (hsmall : ∀ digits ∈ [lower, upper], Text.digitsValue digits ≤ boundLimit)
    (hseparator : (Reader.attempt (rawSeparator s)).Reads tail rest (· = raw)) :
    (bounds s).Reads (lower ++ ahead) rest
      (· = (namedBy lower, namedBy upper, raw.map normalizeSeparator)) := by
  -- numbers that were printed are small enough, so neither bound is refused
  have hlimit : ∀ digits ∈ [lower, upper], ¬(namedBy digits).any (boundLimit < ·) = true := by
    intro digits hmem
    unfold namedBy
    split
    · exact Bool.false_ne_true
    · simpa using hsmall digits hmem
  rw [bounds]
  refine .bind_here fun start _ => ?_
  refine (Reader.reads_takeWhile hlower hstop).bind fun found hfound => ?_
  rw [hfound]
  refine hupper.bind fun found' hfound' => ?_
  rw [hfound', hsome]
  refine .ite_neg Bool.false_ne_true ((Reader.reads_accept _ _).bind fun _ _ => ?_)
  refine .ite_neg ?_ (hseparator.bind fun separator hread => .pure (by rw [hread]; rfl))
  rw [Bool.or_eq_true]
  exact not_or.2 ⟨hlimit lower (by simp), hlimit upper (by simp)⟩

/-- Behind a hyphen stand the digits of the upper bound, if there are any. -/
theorem reads_upperDigits (lower : Text) {upper : Text} (h : ∀ u ∈ upper, u.isDigit = true)
    (tail : Text) :
    (upperDigits lower).Reads (units "-" ++ (upper ++ (units "$$" ++ tail))) (units "$$" ++ tail)
      (· = upper) := by
  rw [upperDigits]
  refine (Reader.reads_tryAccept _ _).bind fun found hfound => .ite hfound ?_
  exact Reader.reads_takeWhile h fun u hu => by cases hu; decide

/-- Without a hyphen the upper bound is the lower one. -/
theorem reads_upperDigits_self (lower : Text) {ahead : Text} (h : ∀ u ∈ ahead.head?, u ≠ 45) :
    (upperDigits lower).Reads ahead ahead (· = lower) := by
  have hhyphen : ahead.startsWith (units "-") = false := startsWith_eq_false h
  rw [upperDigits]
  refine (Reader.reads_tryAccept_false hhyphen).bind fun found hfound => ?_
  exact .ite_neg (by simp [hfound]) (.pure rfl)

/-- Bounds that are printed are read back. -/
theorem reads_bounds (hs : s.grammar = .standard) {least most : Nat} {separator : Text}
    (hle : least ≤ most) (hexact : most < Binary64.exactUpTo)
    (h : separator = Command.defaultSeparator ∨ separator.IsLetters) :
    (bounds s).Reads
      (Text.ofNat least ++ (units "-" ++ (Text.ofNat most ++ (units "$$" ++
        (separator ++ (units "$$" ++ rest)))))) rest
      (· = (some least, some most, some separator)) := by
  obtain ⟨hleast, hleastDigits⟩ := Text.ofNat_digits least
  obtain ⟨hmost, hmostDigits⟩ := Text.ofNat_digits most
  obtain ⟨hseparator, hunits⟩ := separator_units h
  -- the separator is read up to the second pair of dollars, and its letters have no blanks to trim
  have hread : (Reader.attempt (rawSeparator s)).Reads (separator ++ (units "$$" ++ rest)) rest
      (· = some separator) :=
    (reads_rawSeparator hs hseparator fun u hu => (hunits u hu).2).attempt.mono
      fun _ ⟨_, hsome, hraw⟩ => hsome.trans (congrArg some hraw)
  have hbounds := reads_bounds_of s hleastDigits (fun u hu => by cases hu; decide)
    (reads_upperDigits _ hmostDigits _) (by simp [hleast])
    (by
      simp only [List.forall_mem_cons, Text.digitsValue_ofNat, boundLimit]
      rw [Binary64.exactUpTo] at hexact
      exact ⟨by omega, by omega, List.forall_mem_nil _⟩)
    hread
  refine hbounds.mono fun found hfound => ?_
  rw [hfound, namedBy_digits hleast, namedBy_digits hmost, Text.digitsValue_ofNat,
    Text.digitsValue_ofNat, Option.map_some, normalizeSeparator_eq_self fun u hu => (hunits u hu).1]

/-- A number before anything but bounds declares none. -/
theorem refuses_bounds (s : Setting) {digits : Text} (hdigits : ∀ u ∈ digits, u.isDigit = true)
    (hrest : ∀ u ∈ rest.head?, u.isDigit = false ∧ u ≠ 45)
    (hdollars : digits ≠ [] → rest.startsWith (units "$$") = false) :
    (bounds s).Refuses (digits ++ rest) := by
  rw [bounds]
  refine .bind_here fun start _ => ?_
  refine .bind_reads (Reader.reads_takeWhile hdigits fun u hu => (hrest u hu).1)
    fun lower hlower => ?_
  refine .bind_reads (reads_upperDigits_self lower fun u hu => (hrest u hu).2) fun upper hupper =>
    ?_
  rw [hupper, hlower]
  -- without a number on either side nothing is declared; with one the dollars are missing
  by_cases hempty : digits = []
  · subst hempty
    exact .ite rfl .reject
  · exact .ite_neg (by simpa using hempty) (.bind (Reader.refuses_accept (hdollars hempty)))

/-- Before an option there are no bounds. -/
theorem refuses_bounds_option (s : Setting) {option : Weighted Command}
    (h : inner.ReadsOption option) (hrest : Ends .block rest) :
    (bounds s).Refuses (printOption option ++ rest) := by
  obtain ⟨n, hpos, hlt, hweight⟩ := h.weight
  rw [printOption, hweight]
  -- a weight of one is not printed; then the value stands first, which is neither digit nor hyphen
  rcases printWeight_natCast hpos hlt with ⟨-, hprint⟩ | hprint
  · have hnone : ∀ u ∈ ([] : Text), u.isDigit = true := nofun
    have hhead : ∀ u ∈ (option.value.print ++ rest).head?, u.isDigit = false ∧ u ≠ 45 := by
      intro u hu
      have hbegins := beginsOperand_print h.value hrest u hu
      exact ⟨hbegins.isBlank.2, hbegins.ne (by decide) (by decide)⟩
    rw [hprint, List.append_assoc]
    exact refuses_bounds s hnone hhead fun hne => absurd rfl hne
  · rw [hprint, List.append_assoc, List.append_assoc]
    refine refuses_bounds s (Text.ofNat_digits n).2 (fun u hu => ?_) fun _ => rfl
    cases hu
    decide

/-- The bounds that are declared, or that go without saying. -/
def Declares (least most : Nat) (separator : Text)
    (declared : Option (Option Nat × Option Nat × Option Text)) : Prop :=
  declared = some (some least, some most, some separator) ∨
    declared = none ∧ least = 1 ∧ most = 1 ∧ separator = Command.defaultSeparator

variable {options : List (Weighted Command)} {least most : Nat} {separator : Text}
  {sampling : Option Sampling}

/-- The bounds of a variant are read back, whether they are printed or not. -/
theorem reads_declared (hs : s.grammar = .standard)
    (settings : PrintableVariant options least most separator sampling) {option : Weighted Command}
    (h : inner.ReadsOption option) (hrest : Ends .block rest) :
    (Reader.attempt (bounds s)).Reads
      (Command.printBounds least most separator ++ (printOption option ++ rest))
      (printOption option ++ rest) (Declares least most separator) := by
  rcases printBounds_cases least most separator with ⟨rfl, rfl, rfl, hprint⟩ | hprint
  · rw [hprint]
    exact (refuses_bounds_option s h hrest).attempt.mono fun declared hnone =>
      .inr ⟨hnone, rfl, rfl, rfl⟩
  · rw [hprint]
    refine (reads_bounds hs settings.bounds.2.1 settings.exact settings.separates).attempt.mono
      fun declared hsome => ?_
    obtain ⟨value, rfl, rfl⟩ := hsome
    exact .inl rfl

/-- Before an option there are digits or the option. -/
theorem beginsOption_printBounds (least most : Nat) (separator : Text) {tail : Text}
    (h : ∀ u ∈ tail.head?, BeginsOption u) :
    ∀ u ∈ (Command.printBounds least most separator ++ tail).head?, BeginsOption u := by
  obtain ⟨hne, hdigits⟩ := Text.ofNat_digits least
  rcases printBounds_cases least most separator with ⟨-, -, -, hprint⟩ | hprint
  · rw [hprint]
    exact h
  · rw [hprint]
    exact beginsOption_digits hne hdigits

/-- There is no colon in the bounds, so they are not taken for a weight. -/
theorem printBounds_ne_colon (h : separator = Command.defaultSeparator ∨ separator.IsLetters) :
    ∀ u ∈ Command.printBounds least most separator, u ≠ 58 := by
  -- digits, hyphen, dollars and separator one by one, and no colon among them
  have hdigits : ∀ n : Nat, ∀ u ∈ Text.ofNat n, u ≠ 58 := fun n u hu =>
    CodeUnit.ne_of_isDigit ((Text.ofNat_digits n).2 u hu) (by decide)
  have hmarks : (∀ u ∈ units "-", u ≠ 58) ∧ ∀ u ∈ units "$$", u ≠ 58 :=
    ⟨fun u hu => ne_of_mem_of_not_mem hu (by decide),
      fun u hu => ne_of_mem_of_not_mem hu (by decide)⟩
  have hseparator : ∀ u ∈ separator, u ≠ 58 := by
    rcases h with rfl | hletters
    · exact fun u hu => ne_of_mem_of_not_mem hu (by decide)
    · exact ne_colon hletters
  intro u hu
  rw [Command.printBounds] at hu
  split at hu
  · cases hu
  · simp only [List.mem_append] at hu
    rcases hu with ((((hu | hu) | hu) | hu) | hu) | hu
    · exact hdigits least u hu
    · exact hmarks.1 u hu
    · exact hdigits most u hu
    · exact hmarks.2 u hu
    · exact hseparator u hu
    · exact hmarks.2 u hu

/-! ## 3. Blocks in braces -/

/-- Only an asterisk makes a comment. -/
theorem refuses_commentBlock (hs : s.grammar = .standard) {ahead : Text}
    (h : ∀ u ∈ ahead.head?, u.isBlank = false ∧ u ≠ 42) :
    (commentBlock s).Refuses (units "\x7b" ++ ahead) := by
  have hasterisk : ahead.startsWith (units "*") = false :=
    startsWith_eq_false fun u hu => (h u hu).2
  rw [commentBlock, hs]
  refine .bind_reads (Reader.reads_accept _ _) fun _ _ => ?_
  refine .bind_reads (Reader.reads_skipBlanks fun u hu => (h u hu).1) fun _ _ => ?_
  refine .bind_reads (Reader.reads_tryAccept_false hasterisk) fun found hfound => ?_
  exact .ite_neg (by simp [hfound]) .reject

/-- Only a number makes a probability. -/
theorem refuses_probabilityBlock (hs : s.grammar = .standard) {ahead : Text}
    (h : ∀ u ∈ ahead.head?, u.isBlank = false ∧ u.isDigit = false ∧ u ≠ 46) :
    (probabilityBlock s inner).Refuses (units "\x7b" ++ ahead) := by
  rw [probabilityBlock, hs]
  refine .bind_here fun start _ => .bind_reads (Reader.reads_accept _ _) fun _ _ => ?_
  refine .bind_reads (Reader.reads_skipBlanks fun u hu => (h u hu).1) fun _ _ => ?_
  refine .bind_reads (refuses_real fun u hu => (h u hu).2).attempt fun found hfound => ?_
  rw [hfound]
  exact .bind_reads (Reader.reads_expect _) fun _ _ => .reject

/-- A number is no probability without its colons, and with them it must govern a value up
to the closing brace. -/
theorem refuses_probabilityBlock_number (hs : s.grammar = .standard) {digits : Text}
    (hne : digits ≠ []) (hdigits : ∀ u ∈ digits, u.isDigit = true)
    (hrest : ∀ u ∈ rest.head?, u.isDigit = false ∧ u ≠ 46)
    (hvalue : rest.startsWith (units "::") = false ∨ ∃ (value : Command) (more : Text),
      rest = units "::" ++ (value.print ++ (units "|" ++ more)) ∧ value.PrintableOperand ∧
      inner.ReadsBack value) :
    (probabilityBlock s inner).Refuses (units "\x7b" ++ (digits ++ rest)) := by
  rw [probabilityBlock, hs]
  refine .bind_here fun start _ => .bind_reads (Reader.reads_accept _ _) fun _ _ => ?_
  refine .bind_reads (Reader.reads_skipBlanks fun u hu =>
    (beginsOption_digits hne hdigits u hu).isBlank) fun _ _ => ?_
  refine .bind_reads (reads_real hne hdigits hrest).attempt fun found hfound => ?_
  obtain ⟨number, rfl, -⟩ := hfound
  rcases hvalue with hcolons | ⟨value, more, rfl, hprintable, hreads⟩
  · exact .bind (Reader.refuses_accept hcolons)
  · -- a weighted option reads as a chance and its value, and then a bar stands in the way
    refine .bind_reads (Reader.reads_accept _ _) fun _ _ => ?_
    refine .bind_reads (reads_operand hprintable hreads (.bar more)) fun read _ => ?_
    exact .bind_reads (Ends.bar more).reads_skipBlanks fun _ _ => .bind (Reader.refuses_accept rfl)

/-- Where no pattern ends there is no condition. -/
theorem refuses_conditionBlock (hs : s.grammar = .standard) {ahead : Text}
    (h : patternText? .standard ahead = none) :
    (conditionBlock s inner).Refuses (units "\x7b" ++ ahead) := by
  rw [conditionBlock, hs]
  exact .bind_reads (Reader.reads_accept _ _) fun _ _ => .bind_here fun _ _ =>
    .bind (refuses_branch hs h)

/-! ## 4. Variants -/

variable {label : Label} {first : Weighted Command}

/-- A variant as it is printed: marker, bounds, options and a brace. -/
theorem print_variant :
    (Command.variant label (first :: options) least most separator sampling).print ++ rest =
      units "\x7b" ++ (Command.markerText sampling ++ (Command.printBounds least most separator ++
        (printOption first ++ behind (options.map printOption) (units "\x7d" ++ rest)))) := by
  rw [Command.print, Command.printOptions_eq, List.map_cons]
  simp only [List.append_assoc]
  refine congrArg (units "\x7b" ++ ·) (congrArg (Command.markerText sampling ++ ·) ?_)
  exact congrArg (Command.printBounds least most separator ++ ·) (join_append _ _ _)

/-- Behind the brace of a variant stands no blank, and no asterisk. -/
theorem head_variant (sampling : Option Sampling) {tail : Text}
    (h : ∀ u ∈ tail.head?, BeginsOption u) :
    ∀ u ∈ (Command.markerText sampling ++ tail).head?, u.isBlank = false ∧ u ≠ 42 := by
  intro u hu
  cases sampling with
  | none =>
    have hu := h u hu
    exact ⟨hu.isBlank, hu.ne (by decide) (by decide) (by decide)⟩
  | some method =>
    cases hu
    cases method <;> decide

/-- A variant whose first option has no weight holds no pattern, and no number of a chance. -/
theorem refuses_unweighted (hs : s.grammar = .standard)
    (settings : PrintableVariant (first :: options) least most separator sampling)
    (h : inner.ReadsOption first) (hone : first.weight = 1) :
    (probabilityBlock s inner).Refuses
        ((Command.variant label (first :: options) least most separator sampling).print ++ rest) ∧
      (conditionBlock s inner).Refuses
        ((Command.variant label (first :: options) least most separator sampling).print ++
          rest) := by
  have hprint : printOption first = first.value.print := by rw [printOption, hone]; rfl
  have hends : Ends .block (behind (options.map printOption) (units "\x7d" ++ rest)) :=
    (Ends.close rest).behind _
  have hhead : ∀ u ∈ (first.value.print ++
      behind (options.map printOption) (units "\x7d" ++ rest)).head?,
      u.isBlank = false ∧ u.isDigit = false ∧ u ≠ 46 := by
    intro u hu
    have hbegins := beginsOperand_print h.value hends u hu
    exact ⟨hbegins.isBlank.1, hbegins.noNumber⟩
  rw [print_variant, hprint]
  constructor
  -- no option has a weight in front, so a chance could only be the lower
  -- bound, and a test only a value
  · cases sampling with
    | some method =>
      refine refuses_probabilityBlock hs fun u hu => ?_
      cases hu
      cases method <;> decide
    | none =>
      have hmarker : Command.markerText none = [] := rfl
      rw [hmarker, List.nil_append]
      rcases printBounds_cases least most separator with ⟨-, -, -, hbounds⟩ | hbounds
      · rw [hbounds]
        exact refuses_probabilityBlock hs hhead
      · -- the lower bound reads as a chance, but a hyphen stands behind it
        obtain ⟨hne, hdigits⟩ := Text.ofNat_digits least
        rw [hbounds]
        refine refuses_probabilityBlock_number hs hne hdigits (fun u hu => ?_) (.inl rfl)
        cases hu
        decide
  · refine refuses_conditionBlock hs ?_
    refine HidesPatterns.of_forall (markerText_ne_colon sampling) _ ?_
    refine HidesPatterns.of_forall (printBounds_ne_colon settings.separates) _ ?_
    exact hidesPatterns_operand h.value _ (patternText?_behind _ rest)

/-- A variant whose first option has a weight has a second one, whose bar ends the value of
a probability; and the weight is no pattern. -/
theorem refuses_weighted (hs : s.grammar = .standard) (h : inner.ReadsOption first)
    (hmany : options ≠ []) (hone : first.weight ≠ 1) :
    (probabilityBlock s inner).Refuses (units "\x7b" ++
        (printOption first ++ behind (options.map printOption) (units "\x7d" ++ rest))) ∧
      (conditionBlock s inner).Refuses (units "\x7b" ++
        (printOption first ++ behind (options.map printOption) (units "\x7d" ++ rest))) := by
  obtain ⟨n, hpos, hlt, hweight⟩ := h.weight
  obtain ⟨hne, hdigits⟩ := Text.ofNat_digits n
  obtain ⟨second, options, rfl⟩ := List.exists_cons_of_ne_nil hmany
  have hprint : Command.printWeight n = Text.ofNat n ++ units "::" := by
    rcases printWeight_natCast hpos hlt with ⟨rfl, -⟩ | hprint
    · exact absurd hweight hone
    · exact hprint
  rw [printOption, hweight, hprint, List.append_assoc, List.append_assoc]
  -- the weight reads as a number with two colons behind it: no chance for
  -- one option, and no pattern
  constructor
  · exact refuses_probabilityBlock_number hs hne hdigits (colons_noNumber _)
      (.inr ⟨_, _, rfl, h.value, h.reads⟩)
  · rw [conditionBlock, hs]
    refine .bind_reads (Reader.reads_accept _ _) fun _ _ => .bind_here fun _ _ => .bind ?_
    rw [branch]
    exact .bind (refuses_pattern_number hs hne hdigits)

/-- What is printed of a variant is no chance and no condition. -/
theorem refuses_variant (hs : s.grammar = .standard)
    (settings : PrintableVariant (first :: options) least most separator sampling)
    (h : inner.ReadsOption first) (label : Label) (rest : Text) :
    (probabilityBlock s inner).Refuses
        ((Command.variant label (first :: options) least most separator sampling).print ++ rest) ∧
      (conditionBlock s inner).Refuses
        ((Command.variant label (first :: options) least most separator sampling).print ++
          rest) := by
  rcases settings.first first rfl with hone | ⟨rfl, hbounds, hlength⟩
  · exact refuses_unweighted hs settings h hone
  · by_cases hone : first.weight = 1
    · exact refuses_unweighted hs settings h hone
    · have hmany : options ≠ [] := by
        rintro rfl
        simp at hlength
      rw [print_variant, hbounds]
      exact refuses_weighted hs h hmany hone

/-- Options that are read pass the check with the weights that they had. -/
theorem checkOptions_read {options : List (Weighted Command)}
    {read : List (Option Number × Command)} (h : List.Forall₂ ReadsAsOption options read)
    (hweights : ∀ option ∈ options, 0 ≤ option.weight) :
    ∃ checked, Command.checkOptions read = .ok checked ∧ checked.length = options.length ∧
      Command.relabelledOptions (fun _ => Command.noLabel) checked =
        Command.relabelledOptions (fun _ => Command.noLabel) options := by
  induction h with
  | nil => exact ⟨[], rfl, rfl, rfl⟩
  | @cons option read options others hread _ ih =>
    obtain ⟨checked, hchecked, hlength, hsame⟩ :=
      ih fun other hmem => hweights other (List.mem_cons_of_mem _ hmem)
    -- the weight was printed exactly, and an unweighted option weighs one
    have hcheck : Command.checkWeight (read.1.getD 1) = .ok option.weight := by
      rw [hread.weight, Command.checkWeight,
        if_neg (Rat.not_lt.2 (hweights option List.mem_cons_self))]
    refine ⟨⟨option.weight, read.2⟩ :: checked, ?_, ?_, ?_⟩
    · rw [Command.checkOptions, hcheck, hchecked]
      rfl
    · rw [List.length_cons, List.length_cons, hlength]
    · exact congrArg₂ (fun value rest => (⟨option.weight, value⟩ : Weighted Command) :: rest)
        hread.value hsame

/-- A variant that is read is made as it was. -/
theorem makeVariant_read (label other : Label) {options : List (Weighted Command)}
    {read : List (Option Number × Command)}
    (settings : PrintableVariant options least most separator sampling)
    (h : List.Forall₂ ReadsAsOption options read)
    {declared : Option (Option Nat × Option Nat × Option Text)}
    (hdeclared : Declares least most separator declared) :
    ∃ made, Command.makeVariant other read
        ⟨(declared.getD (none, none, none)).1.map Number.ofNat,
          (declared.getD (none, none, none)).2.1.map Number.ofNat,
          (declared.getD (none, none, none)).2.2, sampling⟩ = .ok made ∧
      (Command.variant label options least most separator sampling).Alike made := by
  have hweights : ∀ option ∈ options, 0 ≤ option.weight := by
    intro option hmem
    obtain ⟨n, -, -, hweight⟩ := settings.weights option hmem
    rw [hweight]
    exact Rat.natCast_nonneg
  obtain ⟨checked, hchecked, hlength, hsame⟩ := checkOptions_read h hweights
  obtain ⟨hleast, hle, hmost⟩ := settings.bounds
  refine ⟨.variant other checked least most separator sampling, ?_, ?_⟩
  · simp only [Command.makeVariant, hchecked, Command.checkBound_ofNat, bind, Except.bind]
    rcases hdeclared with rfl | ⟨rfl, rfl, rfl, rfl⟩
    · -- declared bounds lie within the options, so clamping leaves them
      have hlower : min (max least 1) checked.length = least := by omega
      have hupper : min (max most least) checked.length = most := by omega
      simp only [Option.getD_some, Option.isSome_some, true_and]
      rw [if_neg (Nat.not_lt.2 hle), hlower, hupper]
      rfl
    · have hone : min 1 checked.length = 1 := by omega
      simp only [Option.getD_none, Option.isNone_none, if_true, Option.isSome_none,
        Bool.false_eq_true, false_and, if_false, Nat.max_self, hone]
      rfl
  · exact congrArg (Command.variant Command.noLabel · least most separator sampling) hsame

/-- A variant is read back from what is printed. -/
theorem reads_variantBlock (hs : s.grammar = .standard) {options : List (Weighted Command)}
    (settings : PrintableVariant options least most separator sampling)
    (h : ∀ option ∈ options, inner.ReadsOption option) (label : Label) (rest : Text) :
    (variantBlock s inner).Reads
      ((Command.variant label options least most separator sampling).print ++ rest) rest
      (Command.variant label options least most separator sampling).Alike := by
  obtain ⟨first, options, rfl⟩ := List.exists_cons_of_ne_nil settings.some
  have hfirst := h first List.mem_cons_self
  have hothers : ∀ option ∈ options, inner.ReadsOption option :=
    fun option hmem => h option (List.mem_cons_of_mem _ hmem)
  have hends : Ends .block (behind (options.map printOption) (units "\x7d" ++ rest)) :=
    (Ends.close rest).behind _
  have hbounds := beginsOption_printBounds least most separator (beginsOption_print hfirst hends)
  rw [print_variant, variantBlock, hs]
  refine .bind_here fun start hstart => (Reader.reads_accept _ _).bind fun _ _ => ?_
  refine (Reader.reads_skipBlanks fun u hu => (head_variant sampling hbounds u hu).1).bind
    fun _ _ => ?_
  refine (reads_sampler sampling fun u hu => ?_).bind fun method hmethod => ?_
  · -- neither bounds nor an option begin with a marker
    have hu := hbounds u hu
    exact ⟨hu.ne (by decide) (by decide) (by decide), hu.ne (by decide) (by decide) (by decide),
      hu.ne (by decide) (by decide) (by decide)⟩
  refine (reads_declared hs settings hfirst hends).bind fun declared hdeclared => ?_
  refine (reads_option s hfirst hends).bind fun read hread => ?_
  have hrounds : options.length < start.rest.length + 1 := by
    have hcount := length_behind (options.map printOption) (units "\x7d" ++ rest)
    rw [List.length_map] at hcount
    simp only [hstart, List.length_append] at hcount ⊢
    omega
  refine (reads_moreOptions s hothers hrounds).bind fun others hmore => ?_
  refine (Ends.close rest).reads_skipBlanks.bind fun _ _ => ?_
  refine (Reader.reads_accept _ _).attempt.bind fun found hfound => ?_
  obtain ⟨_, rfl, -⟩ := hfound
  obtain ⟨made, hmade, halike⟩ :=
    makeVariant_read label (s.label start) settings (.cons hread hmore) hdeclared
  rw [hmethod]
  simp only [hmade]
  exact .pure halike

end PromptTemplate.Template
