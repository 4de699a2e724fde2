/-
`Punctuation.lean` -- the standard delimiters, and what readers make of them.

Ahead of a delimiter or at the end of an operand, most productions refuse at once, because
each begins with an opener of its own. What is left to decide is decided by units that are
never punctuation, letters among them: plain text takes them as far as they go.
-/
import PromptTemplate.Proofs.Command.Printing
import PromptTemplate.Proofs.Template.Reads

set_option autoImplicit false

namespace PromptTemplate.Template

/-! ## 1. What stands ahead -/

/-- What can stand behind the last chunk: the end of a template, and in a block the next
part of it or its end. -/
inductive Ends : Context → Text → Prop
  | source : Ends .prompt []
  | bar (rest : Text) : Ends .block (124 :: rest)
  | close (rest : Text) : Ends .block (125 :: rest)
  | dollars (rest : Text) : Ends .block (36 :: 36 :: rest)

/-- The beginnings of nodes that are no text. -/
inductive Opens : Text → Prop
  | brace (rest : Text) : Opens (123 :: rest)
  | variable (rest : Text) : Opens (36 :: 123 :: rest)
  | wrap (rest : Text) : Opens (37 :: 123 :: rest)
  | wildcard (rest : Text) : Opens (95 :: 95 :: rest)

/-- No comment can begin here. -/
def Uncommented (ahead : Text) : Prop := ∀ u ∈ ahead.head?, u ≠ 35 ∧ u ≠ 47

/-- At the end there is no comment. -/
theorem uncommented_nil : Uncommented [] := fun u hu => by cases hu

/-- Plain text ends here, whatever stands before. -/
def StopsText (context : Context) (ahead : Text) : Prop :=
  ∀ previous, plainText .standard context previous ahead = []

variable {context : Context} {ahead rest : Text}

/-- A token does not stand where another unit does. -/
theorem startsWith_eq_false {v : CodeUnit} {token : Text} (h : ∀ u ∈ ahead.head?, u ≠ v) :
    ahead.startsWith (v :: token) = false := by
  cases ahead with
  | nil => rfl
  | cons u rest =>
    have hne : v ≠ u := (h u rfl).symm
    rw [Text.startsWith, List.isPrefixOf_cons_cons, beq_false_of_ne hne, Bool.false_and]

/-- Text stops where a block does. -/
theorem stopsText_of_endsText (h : ∀ previous, endsText .standard context previous ahead = true) :
    StopsText context ahead := by
  intro previous
  cases ahead with
  | nil => rfl
  | cons u ahead => rw [plainText, if_pos (h previous)]

/-- What ends a context stops text. -/
theorem Ends.stopsText (h : Ends context ahead) : StopsText context ahead := by
  cases h with
  | source => exact fun _ => rfl
  | bar rest => exact stopsText_of_endsText fun _ => rfl
  | close rest => exact stopsText_of_endsText fun _ => rfl
  | dollars rest => exact stopsText_of_endsText fun _ => rfl

/-- So does an opener. -/
theorem Opens.stopsText (h : Opens ahead) (context : Context) : StopsText context ahead := by
  cases h with
  | brace rest => exact stopsText_of_endsText fun _ => rfl
  | «variable» rest => exact stopsText_of_endsText fun _ => rfl
  | wrap rest => exact stopsText_of_endsText fun _ => rfl
  | wildcard rest => exact stopsText_of_endsText fun _ => rfl

/-- No comment begins where a context ends. -/
theorem Ends.uncommented (h : Ends context ahead) : Uncommented ahead := by
  cases h with
  | source => exact nofun
  | _ => exact fun u hu => by cases hu; decide

/-- Nor at an opener. -/
theorem Opens.uncommented (h : Opens ahead) : Uncommented ahead := by
  cases h with
  | _ => exact fun u hu => by cases hu; decide

/-! ## 2. Plain units -/

/-- The units that the marks of the standard grammar begin with, where they can end a text. -/
def markHeads : Text := [35, 36, 37, 40, 41, 47, 58, 95, 123, 124, 125]

/-- The unit begins no mark that ends a text. -/
def Plain (u : CodeUnit) : Prop := u ∉ markHeads

instance (u : CodeUnit) : Decidable (Plain u) := inferInstanceAs (Decidable (u ∉ markHeads))

/-- A plain unit is not one that is not plain. -/
theorem Plain.ne {u v : CodeUnit} (hu : Plain u) (hv : ¬Plain v) : u ≠ v := fun h => hv (h ▸ hu)

/-- A letter is plain. -/
theorem plain_of_isLetter {u : CodeUnit} (hu : u.isLetter = true) : Plain u := by
  intro hmem
  have hmarks : ∀ v ∈ markHeads, v.isLetter = false := Text.forall_of_all (by decide)
  rw [hmarks u hmem] at hu
  cases hu

/-- So are letters. -/
theorem plain_of_isLetters {letters : Text} (h : letters.IsLetters) : ∀ u ∈ letters, Plain u :=
  fun u hu => plain_of_isLetter (h.2 u hu)

/-- What begins with plain units, one at least, begins with one. -/
theorem uncommented_of_plain (h : ∀ u ∈ ahead.head?, Plain u) : Uncommented ahead :=
  fun u hu => ⟨(h u hu).ne (by decide), (h u hu).ne (by decide)⟩

/-- A token that begins with a mark does not stand where a plain unit does. -/
theorem startsWith_of_plain {v : CodeUnit} {token : Text} (h : ∀ u ∈ ahead.head?, Plain u)
    (hv : ¬Plain v) : ahead.startsWith (v :: token) = false :=
  startsWith_eq_false fun u hu => (h u hu).ne hv

/-- No opener begins with a plain unit. -/
theorem startsWith_opener_of_plain (h : ∀ u ∈ ahead.head?, Plain u) :
    ∀ opener ∈ Grammar.standard.openers, ahead.startsWith opener = false := by
  simp only [Grammar.openers, List.forall_mem_cons]
  exact ⟨startsWith_of_plain h (by decide : ¬Plain 123),
    startsWith_of_plain h (by decide : ¬Plain 36), startsWith_of_plain h (by decide : ¬Plain 37),
    startsWith_of_plain h (by decide : ¬Plain 95), nofun⟩

/-- No comment begins where none can. -/
theorem Uncommented.comments (h : Uncommented ahead) (previous : Option CodeUnit) :
    atLineComment previous ahead = false ∧ blockComment? ahead = none := by
  have hslash : ∀ u ∈ ahead.head?, u ≠ 47 := fun u hu => (h u hu).2
  have hline : ahead.startsWith (units "//") = false := startsWith_eq_false hslash
  have hblock : ahead.startsWith (units "/*") = false := startsWith_eq_false hslash
  have hsharp : (ahead.head? == some 35) = false := by
    refine beq_eq_false_iff_ne.2 fun hhead => ?_
    exact (h 35 hhead).1 rfl
  constructor
  · rw [atLineComment, hsharp, hline, Bool.false_and, Bool.or_self]
  · rw [blockComment?, hblock, if_neg Bool.false_ne_true]

/-- A plain unit ends no text. -/
theorem endsText_plain {u : CodeUnit} (hu : Plain u) (previous : Option CodeUnit) :
    endsText .standard context previous (u :: rest) = false := by
  -- a plain unit is none of the marks, so no token begins here
  have hne : ∀ v : CodeUnit, ¬Plain v → u ≠ v := fun v hv => hu.ne hv
  have hhead : ∀ v ∈ (u :: rest).head?, Plain v := by
    intro v hv
    cases hv
    exact hu
  have hstarts : ∀ (v : CodeUnit) (token : Text), ¬Plain v →
      Text.startsWith (u :: rest) (v :: token) = false :=
    fun v token hv => startsWith_of_plain hhead hv
  obtain ⟨hline, hblock⟩ := (uncommented_of_plain hhead).comments previous
  have hopeners : (Grammar.standard.openers.any fun opener => Text.startsWith (u :: rest) opener) =
      false := by
    refine List.any_eq_false.2 fun opener hopener => ?_
    rw [startsWith_opener_of_plain hhead opener hopener]
    exact Bool.false_ne_true
  have hclosers : (Grammar.standard.closers.any fun closer => Text.startsWith (u :: rest) closer) =
      false := by
    have hlist : Grammar.standard.closers = [[125]] := rfl
    simp only [hlist, List.any_cons, List.any_nil, hstarts 125 [] (by decide), Bool.or_self]
  have hdollars : Text.startsWith (u :: rest) (units "$$") = false := hstarts 36 [36] (by decide)
  have hcolons : Text.startsWith (u :: rest) (units "::") = false := hstarts 58 [58] (by decide)
  have hbar : u ≠ 124 := hne 124 (by decide)
  have hleft : u ≠ 40 := hne 40 (by decide)
  have hright : u ≠ 41 := hne 41 (by decide)
  simp [endsText, hline, hblock, hopeners, hclosers, hdollars, hcolons, hbar, hleft, hright]

/-- Plain units are text, up to where text ends. -/
theorem plainText_plain {text : Text} (hplain : ∀ u ∈ text, Plain u)
    (hrest : StopsText context rest) (previous : Option CodeUnit) :
    plainText .standard context previous (text ++ rest) = text := by
  induction text generalizing previous with
  | nil => exact hrest previous
  | cons u text ih =>
    have hnot : ¬endsText .standard context previous (u :: (text ++ rest)) = true := by
      rw [endsText_plain (hplain u List.mem_cons_self)]
      exact Bool.false_ne_true
    rw [List.cons_append, plainText, if_neg hnot, ih fun v hv =>
      hplain v (List.mem_cons_of_mem _ hv)]

/-- Nor where a letter does. -/
theorem startsWith_of_isLetter {v : CodeUnit} {token : Text}
    (h : ∀ u ∈ ahead.head?, u.isLetter = true) (hv : v.isLetter = false) :
    ahead.startsWith (v :: token) = false :=
  startsWith_eq_false fun u hu => CodeUnit.ne_of_isLetter (h u hu) hv

/-! ## 3. Comments and text -/

/-- Where no comment begins the reader stays. -/
theorem afterComments?_eq_self {c : Cursor} (h : Uncommented c.rest) {rounds : Nat} :
    afterComments? (rounds + 1) c = some c := by
  obtain ⟨hline, hblock⟩ := h.comments c.previous
  rw [afterComments?, hline, hblock, if_neg Bool.false_ne_true]

/-- There is no comment to skip. -/
theorem reads_skipComments (h : Uncommented ahead) :
    skipComments.Reads ahead ahead (· = false) := by
  intro c f hc
  have hhere : Uncommented c.rest := by rw [hc]; exact h
  refine ⟨false, c, f, ?_, hc, rfl⟩
  simp only [skipComments, afterComments?_eq_self hhere, Nat.lt_irrefl, decide_false]

variable {s : Setting} {letters : Text}

/-- Where one run is taken, it is all of the text: behind it there is either no comment, or no
second run. -/
theorem reads_text_run (hne : letters ≠ [])
    (hrun : ∀ previous, plainText s.grammar context previous (letters ++ rest) = letters)
    (huncommented : context = .path ∨ Uncommented rest) :
    (text s context).Reads (letters ++ rest) rest (· = .literal letters) := by
  -- one run is all there is: the run stops where the letters do, and no comment follows
  have hruns : ∀ rounds, (textRuns s.grammar context (rounds + 1)).Reads (letters ++ rest) rest
      (· = [letters]) := by
    intro rounds
    rw [textRuns]
    refine .bind_here fun c hc => ?_
    have hdrop : c.rest.drop letters.length = rest := by rw [hc, List.drop_left]
    simp only [hc ▸ hrun c.previous]
    refine .ite_neg (by simpa using hne) ((Reader.reads_moveTo hdrop _).bind fun _ _ => ?_)
    rcases huncommented with hpath | huncommented
    · exact .ite hpath (.pure rfl)
    · by_cases hpath : context = .path
      · exact .ite hpath (.pure rfl)
      · refine .ite_neg hpath ((reads_skipComments huncommented).bind fun skipped hskipped => ?_)
        exact .ite_neg (by simp [hskipped]) (.pure rfl)
  rw [text]
  refine .bind_here fun c _ => (hruns c.rest.length).bind fun runs hruns' => ?_
  rw [hruns']
  exact .ite_neg Bool.false_ne_true (.pure rfl)

/-- Plain units are text up to where text stops. -/
theorem reads_text (hs : s.grammar = .standard) (hne : letters ≠ [])
    (hplain : ∀ u ∈ letters, Plain u) (hstop : StopsText context rest)
    (huncommented : context = .path ∨ Uncommented rest) :
    (text s context).Reads (letters ++ rest) rest (· = .literal letters) := by
  refine reads_text_run hne (fun previous => ?_) huncommented
  rw [hs]
  exact plainText_plain hplain hstop previous

/-- Where no run is taken, there is no text. -/
theorem refuses_text_run (hstop : ∀ previous, plainText s.grammar context previous ahead = []) :
    (text s context).Refuses ahead := by
  have hruns : ∀ rounds, (textRuns s.grammar context (rounds + 1)).Reads ahead ahead (· = []) := by
    intro rounds
    rw [textRuns]
    refine .bind_here fun c hc => ?_
    simp only [hc ▸ hstop c.previous]
    exact .ite rfl (.pure rfl)
  rw [text]
  refine .bind_here fun c _ => .bind_reads (hruns c.rest.length) fun runs hruns' => ?_
  rw [hruns']
  exact .ite rfl (.bind_reads (Reader.reads_expect _) fun _ _ => .reject)

/-- Where text stops there is none. -/
theorem refuses_text (hs : s.grammar = .standard) (hstop : StopsText context ahead) :
    (text s context).Refuses ahead := refuses_text_run (hs ▸ hstop)

/-! ## 4. Openers -/

variable (inner : Inner)

/-- Where no opener is, no block begins, whatever the delimiters are. -/
theorem refuses_directives (h : ∀ opener ∈ s.grammar.openers, ahead.startsWith opener = false) :
    ∀ reader ∈ [commentBlock s, probabilityBlock s inner, conditionBlock s inner,
      assignment s inner, access s inner false, wrapBlock s inner, variantBlock s inner,
      wildcard s inner],
      reader.Refuses ahead := by
  simp only [Grammar.openers, List.forall_mem_cons] at h
  obtain ⟨hvariant, hvariable, hwrap, hwildcard, -⟩ := h
  have hvariant := Reader.refuses_accept hvariant
  have hvariable := Reader.refuses_accept hvariable
  simp only [List.forall_mem_cons]
  exact ⟨.bind hvariant, .bind_here fun _ _ => .bind hvariant, .bind hvariant, .bind hvariable,
    .bind hvariable, .bind (Reader.refuses_accept hwrap), .bind_here fun _ _ => .bind hvariant,
    .bind_here fun _ _ => .bind (Reader.refuses_accept hwildcard), nofun⟩

/-- Nothing that a brace opens is here. -/
theorem refuses_braces (hs : s.grammar = .standard) (h : ahead.startsWith [123] = false) :
    (commentBlock s).Refuses ahead ∧ (probabilityBlock s inner).Refuses ahead ∧
      (conditionBlock s inner).Refuses ahead ∧ (variantBlock s inner).Refuses ahead := by
  have hopen : (Reader.accept s.grammar.variantStart).Refuses ahead := by
    rw [hs]
    exact Reader.refuses_accept h
  exact ⟨.bind hopen, .bind_here fun _ _ => .bind hopen, .bind hopen,
    .bind_here fun _ _ => .bind hopen⟩

/-- No variable is here. -/
theorem refuses_variables (hs : s.grammar = .standard) (h : ahead.startsWith [36, 123] = false) :
    (assignment s inner).Refuses ahead ∧ ∀ inPath, (access s inner inPath).Refuses ahead := by
  have hopen : (Reader.accept s.grammar.variableStart).Refuses ahead := by
    rw [hs]
    exact Reader.refuses_accept h
  exact ⟨.bind hopen, fun _ => .bind hopen⟩

/-- Without its opener there is no wrapping. -/
theorem refuses_wrapBlock (hs : s.grammar = .standard) (h : ahead.startsWith [37, 123] = false) :
    (wrapBlock s inner).Refuses ahead := by
  rw [wrapBlock, hs]
  exact .bind (Reader.refuses_accept h)

/-- Without its opener there is no wildcard. -/
theorem refuses_wildcard (hs : s.grammar = .standard) (h : ahead.startsWith [95, 95] = false) :
    (wildcard s inner).Refuses ahead := by
  rw [wildcard, hs]
  exact .bind_here fun _ _ => .bind (Reader.refuses_accept h)

/-- Where no opener of the standard grammar is, no block begins. -/
theorem refuses_blocks (hs : s.grammar = .standard)
    (h : ∀ opener ∈ Grammar.standard.openers, ahead.startsWith opener = false) :
    ∀ reader ∈ [commentBlock s, probabilityBlock s inner, conditionBlock s inner,
      assignment s inner, access s inner false, wrapBlock s inner, variantBlock s inner,
      wildcard s inner],
      reader.Refuses ahead := refuses_directives inner (hs ▸ h)

/-- Where no run of text is taken and no opener is, there is no chunk. -/
theorem refuses_chunk_run (hstop : ∀ previous, plainText s.grammar context previous ahead = [])
    (hclosed : ∀ opener ∈ s.grammar.openers, ahead.startsWith opener = false) :
    (chunk s inner context).Refuses ahead := by
  intro c f hc
  obtain ⟨f', hrun⟩ := Reader.firstOf_append_of_refuses (hc ▸ refuses_directives inner hclosed)
    [text s context] f
  have htext := Reader.Refuses.firstOf (List.forall_mem_singleton.2 (refuses_text_run hstop))
  obtain ⟨f'', hrun'⟩ := htext c f' hc
  exact ⟨f'', hrun.trans hrun'⟩

/-- Where text stops and nothing opens there is no chunk. -/
theorem refuses_chunk_of_stopsText (hs : s.grammar = .standard) (hstop : StopsText context ahead)
    (hclosed : ∀ opener ∈ Grammar.standard.openers, ahead.startsWith opener = false) :
    (chunk s inner context).Refuses ahead := refuses_chunk_run inner (hs ▸ hstop) (hs ▸ hclosed)

/-- Nothing opens behind the last chunk. -/
theorem Ends.closed (h : Ends context ahead) :
    ∀ opener ∈ Grammar.standard.openers, ahead.startsWith opener = false := by
  simp only [Grammar.openers, List.forall_mem_cons]
  cases h with
  | _ => exact ⟨rfl, rfl, rfl, rfl, nofun⟩

/-- Behind the last chunk there is no other. -/
theorem refuses_chunk (hs : s.grammar = .standard) (h : Ends context ahead) :
    (chunk s inner context).Refuses ahead :=
  refuses_chunk_of_stopsText inner hs h.stopsText h.closed

end PromptTemplate.Template
