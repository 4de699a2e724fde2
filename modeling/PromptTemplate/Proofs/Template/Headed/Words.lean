/-
`Words.lean` -- options that are words, and how a block reads them.

A word is in letters of any script, and a number is written in digits: neither holds a mark of
the standard grammar, so the chunks of a block take either as text, up to what ends a text there
(`reads_operand_text`). A number in front of colons is the weight of the word behind it.
-/
import PromptTemplate.Proofs.Template.ReadBack

set_option autoImplicit false

namespace PromptTemplate

/-- One command put together is itself. -/
theorem Command.ofList_singleton (command : Command) : ofList [command] = command := by
  cases command <;> rfl

namespace Template

/-! ## 1. Words and numerals -/

/-- A unit of a word: a letter of ASCII, or what is beyond ASCII and no blank. -/
def InWord (u : CodeUnit) : Prop := u.isLetter = true ∨ 127 < u.toNat ∧ u.isBlank = false

instance (u : CodeUnit) : Decidable (InWord u) := inferInstanceAs (Decidable (_ ∨ _))

/-- A word in some script. -/
structure Word where
  text : Text
  nonempty : text ≠ []
  letters : ∀ u ∈ text, InWord u

/-- A decimal integer of a template, below a million. -/
structure Numeral where
  text : Text
  nonempty : text ≠ []
  digits : ∀ u ∈ text, u.isDigit = true
  small : Text.digitsValue text < 1000000

/-- The integer that a numeral names. -/
def Numeral.value (numeral : Numeral) : Nat := Text.digitsValue numeral.text

/-- A word to choose, with a weight before it or without one. -/
structure WrittenOption where
  weight : Option Numeral
  word : Word

namespace WrittenOption

/-- The weight as it is written. -/
def printWeight (option : WrittenOption) : Text :=
  match option.weight with
  | some weight => weight.text ++ units "::"
  | none => []

def print (option : WrittenOption) : Text := option.printWeight ++ option.word.text

/-- The option as it is declared of a variant. -/
def declared (option : WrittenOption) : Option Number × Command :=
  (option.weight.map fun weight => Number.ofNat weight.value, .literal option.word.text)

/-- The option with the weight that it has; without one it counts once. -/
def weighted (option : WrittenOption) : Weighted Command :=
  ⟨(option.weight.map fun weight => (weight.value : Rat)).getD 1, .literal option.word.text⟩

end WrittenOption

/-! ## 2. Units -/

/-- A unit of a word is no mark. -/
theorem InWord.ne {u v : CodeUnit} (hu : InWord u) (hv : v.isLetter = false ∧ v.toNat ≤ 127) :
    u ≠ v := by
  rintro rfl
  rcases hu with hletter | ⟨hbeyond, -⟩
  · rw [hv.1] at hletter
    cases hletter
  · exact absurd hv.2 (Nat.not_le.2 hbeyond)

/-- Nor a blank. -/
theorem InWord.isBlank {u : CodeUnit} (hu : InWord u) : u.isBlank = false := by
  rcases hu with hletter | ⟨-, hblank⟩
  · exact (CodeUnit.isBlank_of_isLetter hletter).1
  · exact hblank

/-- Nor a digit. -/
theorem InWord.isDigit {u : CodeUnit} (hu : InWord u) : u.isDigit = false := by
  rcases hu with hletter | ⟨hbeyond, -⟩
  · exact (CodeUnit.isBlank_of_isLetter hletter).2
  · refine Bool.eq_false_iff.2 fun hdigit => ?_
    have := CodeUnit.isDigit_iff.1 hdigit
    omega

/-- It is plain. -/
theorem InWord.plain {u : CodeUnit} (hu : InWord u) : Plain u := by
  have hmarks : ∀ v ∈ markHeads, v.isLetter = false ∧ v.toNat ≤ 127 :=
    Text.forall_of_all (by decide)
  exact fun hmem => hu.ne (hmarks u hmem) rfl

/-- A digit is plain. -/
theorem plain_of_isDigit {u : CodeUnit} (hu : u.isDigit = true) : Plain u := by
  have hmarks : ∀ v ∈ markHeads, v.isDigit = false := Text.forall_of_all (by decide)
  exact fun hmem => CodeUnit.ne_of_isDigit hu (hmarks u hmem) rfl

/-- A digit is no blank. -/
theorem isBlank_of_isDigit {u : CodeUnit} (hu : u.isDigit = true) : u.isBlank = false := by
  have := CodeUnit.isDigit_iff.1 hu
  exact CodeUnit.isBlank_eq_false (by omega) (by omega)

/-- A word begins with a unit of a word. -/
theorem Word.head (word : Word) (rest : Text) : ∀ u ∈ (word.text ++ rest).head?, InWord u :=
  Text.head_append word.nonempty word.letters rest

/-- A numeral begins with a digit. -/
theorem Numeral.head (numeral : Numeral) (rest : Text) :
    ∀ u ∈ (numeral.text ++ rest).head?, u.isDigit = true :=
  Text.head_append numeral.nonempty numeral.digits rest

/-! ## 3. Words in a block -/

variable {s : Setting} {inner : Inner} {rest : Text}

/-- Behind a text: what ends it, and begins neither a comment nor a chunk. -/
structure Halts (rest : Text) : Prop where
  stops : StopsText .block rest
  uncommented : Uncommented rest
  closed : ∀ opener ∈ Grammar.standard.openers, rest.startsWith opener = false
  nonblank : ∀ u ∈ rest.head?, u.isBlank = false

/-- What ends a block halts text. -/
theorem Ends.halts (h : Ends .block rest) : Halts rest :=
  ⟨h.stopsText, h.uncommented, h.closed, fun u hu => (h.beginsOperand u hu).isBlank.1⟩

/-- Colons halt it. -/
theorem halts_colons (rest : Text) : Halts (units "::" ++ rest) := by
  refine ⟨stopsText_of_endsText fun _ => rfl, fun u hu => ?_, ?_, fun u hu => ?_⟩
  · cases hu
    decide
  · simp only [Grammar.openers, List.forall_mem_cons]
    exact ⟨rfl, rfl, rfl, rfl, List.forall_mem_nil _⟩
  · cases hu
    rfl

/-- The units are plain, and none is a blank. -/
def Solid (text : Text) : Prop := text ≠ [] ∧ ∀ u ∈ text, Plain u ∧ u.isBlank = false

/-- Nothing is skipped before such a text. -/
theorem Solid.reads_skipBlanks {text : Text} (h : Solid text) (rest : Text) :
    Reader.skipBlanks.Reads (text ++ rest) (text ++ rest) fun _ => True :=
  Reader.reads_skipBlanks (Text.head_append h.1 (fun u hu => (h.2 u hu).2) rest)

/-- A word has no blanks to trim. -/
theorem Word.solid (word : Word) : Solid word.text :=
  ⟨word.nonempty, fun u hu => ⟨(word.letters u hu).plain, (word.letters u hu).isBlank⟩⟩

/-- Neither has a numeral. -/
theorem Numeral.solid (numeral : Numeral) : Solid numeral.text :=
  ⟨numeral.nonempty, fun u hu =>
    ⟨plain_of_isDigit (numeral.digits u hu), isBlank_of_isDigit (numeral.digits u hu)⟩⟩

/-- The recursive call reads plain text up to where it ends. -/
def Inner.ReadsTexts (inner : Inner) : Prop :=
  ∀ text rest, Solid text → Halts rest → inner.block.Reads (text ++ rest) rest (· = .literal text)

/-- One chunk up to where there is no other. -/
theorem reads_chunks_single {context : Context} {ahead : Text} {good : Command → Prop}
    (hahead : Uncommented ahead) (hread : (chunk s inner context).Reads ahead rest good)
    (hrest : Uncommented rest) (hlast : (chunk s inner context).Refuses rest) (rounds : Nat) :
    (chunks s inner context (rounds + 2)).Reads ahead rest
      (fun read => ∃ command, good command ∧ read = [command]) := by
  have hend : (chunks s inner context (rounds + 1)).Reads rest rest (· = []) := by
    rw [chunks]
    refine (reads_skipComments hrest).bind fun _ _ => hlast.attempt.bind fun found hfound => ?_
    rw [hfound]
    exact .pure rfl
  rw [chunks]
  refine (reads_skipComments hahead).bind fun _ _ => hread.attempt.bind fun found hfound => ?_
  obtain ⟨command, rfl, hgood⟩ := hfound
  exact hend.bind fun others hothers => .pure ⟨command, hgood, by rw [hothers]⟩

/-- The chunks of a block are a text where that is all there is. -/
theorem readsTexts_chunksWith (origin : Origin) (depth : Nat) (base : List Nat) (source : Text)
    (value : List Nat → Text → Except ParseError Command) :
    Inner.ReadsTexts ⟨chunksWith .standard origin (depth + 1) base .block source, value⟩ := by
  intro text rest hsolid hrest
  have hplain : ∀ u ∈ text, Plain u := fun u hu => (hsolid.2 u hu).1
  rw [chunksWith]
  refine .bind_here fun c hc => ?_
  -- one round reads the text and one finds nothing more
  obtain ⟨rounds, hrounds⟩ : ∃ rounds, c.rest.length + 1 = rounds + 2 := by
    obtain ⟨u, text, rfl⟩ := List.exists_cons_of_ne_nil hsolid.1
    rw [hc]
    exact ⟨_, rfl⟩
  rw [hrounds]
  refine (reads_chunks_single (uncommented_of_plain (Text.head_append hsolid.1 hplain rest))
    (reads_chunk_text rfl hsolid.1 hplain hrest.stops hrest.uncommented) hrest.uncommented
    (refuses_chunk_of_stopsText _ rfl hrest.stops hrest.closed) rounds).bind fun read hread => ?_
  obtain ⟨command, rfl, rfl⟩ := hread
  exact .pure rfl

/-- Solid text up to a halt is an operand. -/
theorem reads_operand_text (hinner : inner.ReadsTexts) {text : Text} (hsolid : Solid text)
    (hrest : Halts rest) : (operand inner).Reads (text ++ rest) rest (· = .literal text) := by
  have htrim : text.trimEnd = text :=
    Text.trimEnd_eq_self fun u hu => (hsolid.2 u (List.mem_of_getLast? hu)).2
  rw [operand]
  refine (hsolid.reads_skipBlanks rest).bind fun _ _ => ?_
  refine (hinner text rest hsolid hrest).bind fun read hread => .pure ?_
  rw [hread, trimOperand, htrim]

/-! ## 4. Options -/

/-- A numeral reads as its value. -/
theorem Numeral.ofText (numeral : Numeral) :
    Number.ofText numeral.text = Number.ofNat numeral.value := by
  have hexact : numeral.value < Binary64.exactUpTo := Nat.lt_trans numeral.small (by decide)
  rw [Number.ofText_digits numeral.nonempty numeral.digits]
  exact Decimal.scale_zero hexact

/-- What a written option begins with: a digit of its weight, or its word. -/
theorem head_option (option : WrittenOption) (rest : Text) :
    ∀ u ∈ (option.print ++ rest).head?, u.isDigit = true ∨ InWord u := by
  obtain ⟨weight, word⟩ := option
  cases weight with
  | none => exact fun u hu => .inr (word.head rest u hu)
  | some weight =>
    simp only [WrittenOption.print, WrittenOption.printWeight, List.append_assoc]
    exact fun u hu => .inl (weight.head _ u hu)

/-- An option that was written reads as what it declares. -/
theorem reads_written (s : Setting) (hinner : inner.ReadsTexts) (option : WrittenOption)
    (hrest : Ends .block rest) :
    (Template.option s inner).Reads (option.print ++ rest) rest (· = option.declared) := by
  -- nothing is skipped before an option: it begins with a digit or with a letter
  have hblank : ∀ u ∈ (option.print ++ rest).head?, u.isBlank = false := by
    intro u hu
    rcases head_option option rest u hu with hdigit | hword
    · exact isBlank_of_isDigit hdigit
    · exact hword.isBlank
  rw [Template.option]
  refine (Reader.reads_skipBlanks hblank).bind fun _ _ => .bind_here fun start _ => ?_
  have hvalue := reads_operand_text hinner option.word.solid hrest.halts
  obtain ⟨weight, word⟩ := option
  cases weight with
  | none =>
    have hnone : ∀ u ∈ (word.text ++ rest).head?, u.isDigit = false ∧ u ≠ 46 := fun u hu =>
      ⟨(word.head rest u hu).isDigit, (word.head rest u hu).ne (by decide)⟩
    refine (refuses_weight s start hnone).attempt.bind fun found hfound =>
      hvalue.bind fun read hread => .pure ?_
    rw [hfound, hread]
    rfl
  | some weight =>
    have hweight : (Template.weight s start).Reads
        (weight.text ++ (units "::" ++ (word.text ++ rest))) (word.text ++ rest)
        (· = Number.ofNat weight.value) :=
      reads_weight_digits s start weight.nonempty weight.digits (Numeral.ofText weight)
    have hprint : WrittenOption.print ⟨some weight, word⟩ ++ rest =
        weight.text ++ (units "::" ++ (word.text ++ rest)) := by
      simp only [WrittenOption.print, WrittenOption.printWeight, List.append_assoc]
    rw [hprint]
    refine hweight.attempt.bind fun found hfound => hvalue.bind fun read hread => .pure ?_
    obtain ⟨number, rfl, rfl⟩ := hfound
    rw [hread]
    rfl

/-- The options behind the first, each behind a bar, up to the closing brace and beyond. -/
def closing (options : List WrittenOption) (rest : Text) : Text :=
  behind (options.map WrittenOption.print) (units "\x7d" ++ rest)

/-- The options that are left end with the block. -/
theorem ends_closing (options : List WrittenOption) (rest : Text) :
    Ends .block (closing options rest) := (Ends.close rest).behind _

/-- There are no more options than units left. -/
theorem length_closing (options : List WrittenOption) (rest : Text) :
    options.length ≤ (closing options rest).length := by
  have hcount := length_behind (options.map WrittenOption.print) (units "\x7d" ++ rest)
  rwa [List.length_map] at hcount

/-- Options are separated by a line. -/
theorem closing_cons (option : WrittenOption) (options : List WrittenOption) (rest : Text) :
    closing (option :: options) rest = units "|" ++ (option.print ++ closing options rest) := rfl

/-- Options that were written are read, by induction on their list. -/
theorem reads_moreWritten (s : Setting) (hinner : inner.ReadsTexts) (options : List WrittenOption)
    {rounds : Nat} (hrounds : options.length < rounds) :
    (moreOptions s inner rounds).Reads (closing options rest) (units "\x7d" ++ rest)
      (· = options.map WrittenOption.declared) := by
  -- one more round than options: the last one finds that the block is closed
  induction options generalizing rounds with
  | nil =>
    obtain ⟨rounds, rfl⟩ := Nat.exists_eq_succ_of_ne_zero (Nat.ne_zero_of_lt hrounds)
    rw [moreOptions]
    refine (Reader.reads_tryAccept_false rfl).bind fun found hfound => ?_
    exact .ite_neg (by simp [hfound]) (.pure rfl)
  | cons first options ih =>
    obtain ⟨rounds, rfl⟩ := Nat.exists_eq_succ_of_ne_zero (Nat.ne_zero_of_lt hrounds)
    rw [moreOptions, closing_cons]
    refine (Reader.reads_tryAccept _ _).bind fun found hfound => .ite hfound ?_
    refine (reads_written s hinner first (ends_closing options rest)).bind fun read hread => ?_
    refine (ih (Nat.lt_of_succ_lt_succ hrounds)).bind fun others hothers => .pure ?_
    rw [hread, hothers, List.map_cons]

end Template

end PromptTemplate
