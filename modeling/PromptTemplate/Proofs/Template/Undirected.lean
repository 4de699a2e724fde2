/-
`Undirected.lean` -- text without directives is returned untouched.

Where no opener occurs and no comment begins, every production for a directive refuses at the
beginning of the source, and the text production takes all of it: separators, closing delimiters
and blanks end no text outside of blocks. So the source is one literal. Letters and digits without
an opener are such a source, which is why they need not be read at all. A literal renders to its
text and to nothing else, so prompts of such a source are copies of it, made without a draw and
without a look at a wildcard.
-/
import PromptTemplate.Generation.Prompts
import PromptTemplate.Proofs.Template.Comments

set_option autoImplicit false

namespace PromptTemplate

/-! ## 1. Text without directives -/

namespace Text

/-- What occurs in a text stands somewhere in it. -/
theorem includes_eq_true_iff {t token : Text} : t.includes token = true ↔ token <:+: t := by
  induction t with
  | nil => cases token <;> simp [includes, cut]
  | cons u t ih => rw [includes_cons, Bool.or_eq_true, ih, startsWith, List.isPrefixOf_iff_prefix,
      List.infix_cons_iff]

end Text

/-- No directive of the grammar stands in the text: no opener, and no beginning of a comment. Two
slashes behind a colon begin none, as in an address, and an open mark that is never closed does
not either. -/
structure Grammar.Undirected (g : Grammar) (source : Text) : Prop where
  openers : ∀ opener ∈ g.openers, ¬opener <:+: source
  sign : 35 ∉ source
  slashes : ∀ before after, source = before ++ units "//" ++ after → before.getLast? = some 58
  closed : ∀ before comment after, source ≠ before ++ units "/*" ++ comment ++ units "*/" ++ after

namespace Template

variable {g : Grammar} {source before ahead : Text}

/-- Letters and digits without an opener hold no directive. -/
theorem undirected_of_isPlain (h : IsPlain g source) : g.Undirected source := by
  rw [IsPlain, Bool.and_eq_true] at h
  obtain ⟨halphanumeric, hopeners⟩ := h
  -- every comment has a slash or a sign in it, and letters and digits have neither
  have hslash : 47 ∉ source := Text.not_mem_of_isAlphanumeric halphanumeric (.inr rfl)
  have hmarked : ∀ before after : Text, source ≠ before ++ 47 :: after := by
    rintro before after rfl
    exact hslash (List.mem_append_right _ List.mem_cons_self)
  refine ⟨fun opener hmem hinfix => ?_, Text.not_mem_of_isAlphanumeric halphanumeric (.inl rfl),
    fun before after hsource => ?_, fun before comment after hsource => ?_⟩
  · rw [Bool.not_eq_true', List.any_eq_false] at hopeners
    exact hopeners opener hmem (Text.includes_eq_true_iff.2 hinfix)
  · rw [List.append_assoc] at hsource
    exact absurd hsource (hmarked before _)
  · simp only [List.append_assoc] at hsource
    exact absurd hsource (hmarked before _)

theorem blockComment_eq_none_iff {rest : Text} : blockComment? rest = none ↔
    ∀ comment after, rest ≠ units "/*" ++ comment ++ units "*/" ++ after := by
  -- a comment that is opened is one only where it is closed
  unfold blockComment?
  split
  · next hstarts =>
    obtain ⟨inside, rfl⟩ := List.isPrefixOf_iff_prefix.1 hstarts
    have hinside : Text.cut (units "*/") inside = none ↔ ¬units "*/" <:+: inside := by
      rw [← Text.includes_eq_true_iff, Text.includes, Option.isSome_iff_ne_none, not_not]
    have hdrop : (units "/*" ++ inside).drop 2 = inside := rfl
    rw [hdrop, Option.map_eq_none_iff, hinside]
    simp only [List.append_assoc, ne_eq, List.append_cancel_left_eq, List.IsInfix,
      not_exists, eq_comm]
  · next hstarts =>
    refine ⟨fun _ comment after hrest => hstarts ?_, fun _ => rfl⟩
    rw [hrest]
    exact List.isPrefixOf_iff_prefix.2 ⟨comment ++ units "*/" ++
      after, by simp only [List.append_assoc]⟩

/-- The same, told place by place. -/
theorem undirected_iff : g.Undirected source ↔
    (∀ opener ∈ g.openers, source.includes opener = false) ∧ 35 ∉ source ∧
      ∀ place < source.length + 1,
        (Text.startsWith (source.drop place) (units "//") = true →
          (source.take place).getLast? = some 58) ∧
          blockComment? (source.drop place) = none := by
  have hsplit (place : Nat) : source = source.take place ++ source.drop place :=
    (List.take_append_drop _ _).symm
  constructor
  -- the places of the source are its splits, so what holds of each split holds of each place
  · refine fun h => ⟨fun opener hmem => ?_, h.sign, fun place _ => ⟨fun hstarts => ?_, ?_⟩⟩
    · exact Bool.eq_false_iff.2 fun hincludes =>
        h.openers opener hmem (Text.includes_eq_true_iff.1 hincludes)
    · obtain ⟨after, hafter⟩ := List.isPrefixOf_iff_prefix.1 hstarts
      exact h.slashes _ after (by rw [List.append_assoc, hafter]; exact hsplit place)
    · refine blockComment_eq_none_iff.2 fun comment after hafter => ?_
      refine h.closed (source.take place) comment after ((hsplit place).trans ?_)
      simp only [hafter, List.append_assoc]
  · rintro ⟨hopeners, hsign, hplaces⟩
    have hplace {before ahead : Text} (h : source = before ++ ahead) :
        (Text.startsWith ahead (units "//") = true → before.getLast? = some 58) ∧
          blockComment? ahead = none := by
      have hlength : before.length < source.length + 1 := by
        rw [h, List.length_append]
        omega
      have := hplaces before.length hlength
      rwa [h, List.drop_left, List.take_left] at this
    refine ⟨fun opener hmem hinfix => ?_, hsign, fun before after h => ?_,
      fun before comment after h => ?_⟩
    · have hincludes := Text.includes_eq_true_iff.2 hinfix
      rw [hopeners opener hmem] at hincludes
      cases hincludes
    · exact (hplace (h.trans (List.append_assoc ..))).1
        (List.isPrefixOf_iff_prefix.2 (List.prefix_append _ _))
    · have hclosed : source = before ++ (units "/*" ++ comment ++ units "*/" ++ after) := by
        simpa only [List.append_assoc] using h
      exact blockComment_eq_none_iff.1 (hplace hclosed).2 comment after rfl

instance (g : Grammar) (source : Text) : Decidable (g.Undirected source) :=
  decidable_of_iff _ undirected_iff.symm

/-! ## 2. Reading it -/

/-- No directive begins at any place of the text, if the unit before the place is known. At the
beginning it does not matter what comes before. -/
theorem undirected_at (h : g.Undirected source) (hsource : source = before ++ ahead)
    {previous : Option CodeUnit} (hprevious : before = [] ∨ previous = before.getLast?) :
    atLineComment previous ahead = false ∧ blockComment? ahead = none ∧
      ∀ opener ∈ g.openers, ahead.startsWith opener = false := by
  -- a token that stands here stands in the source behind what was read
  have hprefix {token : Text} (hstarts : ahead.startsWith token = true) :
      ∃ after, source = before ++ token ++ after := by
    obtain ⟨after, rfl⟩ := List.isPrefixOf_iff_prefix.1 hstarts
    exact ⟨after, by rw [hsource, List.append_assoc]⟩
  have hsign : (ahead.head? == some 35) = false := by
    refine beq_eq_false_iff_ne.2 fun hhead => ?_
    obtain ⟨rest, rfl⟩ := List.head?_eq_some_iff.1 hhead
    exact h.sign (hsource ▸ List.mem_append_right _ List.mem_cons_self)
  have hslashes : (ahead.startsWith (units "//") && previous != some 58) = false := by
    refine Bool.and_eq_false_imp.2 fun hstarts => ?_
    obtain ⟨after, hafter⟩ := hprefix hstarts
    have hcolon := h.slashes before after hafter
    rcases hprevious with rfl | rfl
    · cases hcolon
    · rw [hcolon, bne_self_eq_false]
  have hblock : blockComment? ahead = none := by
    refine blockComment_eq_none_iff.2 fun comment after hafter => h.closed before comment after ?_
    rw [hsource, hafter]
    simp only [List.append_assoc]
  refine ⟨by rw [atLineComment, hsign, hslashes]; rfl, hblock, fun opener hmem => ?_⟩
  refine Bool.eq_false_iff.2 fun hstarts => h.openers opener hmem ?_
  obtain ⟨after, hafter⟩ := hprefix hstarts
  exact ⟨before, after, hafter.symm⟩

theorem undirected_start (h : g.Undirected source) (previous : Option CodeUnit) :
    atLineComment previous source = false ∧ blockComment? source = none ∧
      ∀ opener ∈ g.openers, source.startsWith opener = false :=
  undirected_at h (List.nil_append source).symm (.inl rfl)

/-- So outside of blocks no text ends in it before its end. -/
theorem plainText_undirected (h : g.Undirected source) (hsource : source = before ++ ahead)
    {previous : Option CodeUnit} (hprevious : before = [] ∨ previous = before.getLast?) :
    plainText g .prompt previous ahead = ahead := by
  induction ahead generalizing before previous with
  | nil => rfl
  | cons u ahead ih =>
    obtain ⟨hline, hblock, hopeners⟩ := undirected_at h hsource hprevious
    have hnot : ¬endsText g .prompt previous (u :: ahead) = true := by
      have hany : (g.openers.any fun opener => Text.startsWith (u :: ahead) opener) = false :=
        List.any_eq_false.2 fun opener hmem =>
          by rw [hopeners opener hmem]; exact Bool.false_ne_true
      simp [endsText, hline, hblock, hany]
    have hnext : source = (before ++ [u]) ++ ahead := by rw [hsource, List.append_assoc]; rfl
    rw [plainText, if_neg hnot, ih hnext (.inr List.getLast?_concat.symm)]

section Reading

variable {s : Setting} (h : s.grammar.Undirected source)
include h

theorem reads_skipComments_undirected : skipComments.Reads source source (· = false) := by
  intro c f hc
  obtain ⟨hline, hblock, -⟩ := undirected_start h c.previous
  rw [← hc] at hline hblock
  refine ⟨false, c, f, ?_, hc, rfl⟩
  simp only [skipComments, afterComments?, hline, if_neg Bool.false_ne_true, hblock, Nat.lt_irrefl,
    decide_false]

/-- All of it is one chunk: the productions for directives refuse, and the last one takes it. -/
theorem reads_chunk_undirected (inner : Inner) (hne : source ≠ []) :
    (chunk s inner .prompt).Reads source [] (· = .literal source) := by
  obtain ⟨-, -, hclosed⟩ := undirected_start h none
  have htext : (text s .prompt).Reads (source ++ []) [] (· = .literal source) := by
    refine reads_text_run hne (fun previous => ?_) (.inr nofun)
    rw [List.append_nil]
    exact plainText_undirected h (List.nil_append source).symm (.inl rfl)
  rw [List.append_nil] at htext
  intro c f hc
  obtain ⟨f', hrun⟩ := Reader.firstOf_append_of_refuses (hc ▸ refuses_directives inner hclosed)
    [text s .prompt] f
  obtain ⟨value, after, f'', hread, hliteral⟩ := htext.firstOf_head c f' hc
  exact ⟨value, after, f'', hrun.trans hread, hliteral⟩

/-- At the end of it there is no other chunk, for no opener is empty. -/
theorem reads_chunks_end (inner : Inner) (rounds : Nat) :
    (chunks s inner .prompt (rounds + 1)).Reads [] [] (· = []) := by
  -- an opener is never empty, since the empty text stands in every source
  have hclosed : ∀ opener ∈ s.grammar.openers, Text.startsWith [] opener = false := by
    intro opener hmem
    have hne : opener ≠ [] := by
      rintro rfl
      exact h.openers [] hmem List.nil_infix
    obtain ⟨u, rest, rfl⟩ := List.exists_cons_of_ne_nil hne
    rfl
  have hend : (chunk s inner .prompt).Refuses [] := refuses_chunk_run inner (fun _ => rfl) hclosed
  rw [chunks]
  refine (reads_skipComments uncommented_nil).bind fun _ _ => hend.attempt.bind fun found hfound =>
    ?_
  rw [hfound]
  exact .pure rfl

theorem reads_chunks_undirected (inner : Inner) {rounds : Nat} (hrounds : source.length < rounds) :
    (chunks s inner .prompt rounds).Reads source [] fun read =>
      Command.ofList read = .literal source := by
  obtain ⟨rounds, rfl⟩ := Nat.exists_eq_add_one_of_ne_zero (Nat.ne_zero_of_lt hrounds)
  -- the empty source has no chunk; any other has one, which is all of it
  by_cases hne : source = []
  · subst hne
    exact (reads_chunks_end h inner rounds).mono fun read hread => by rw [hread]; rfl
  · have hlength := List.length_pos_iff.2 hne
    obtain ⟨rounds, rfl⟩ := Nat.exists_eq_add_one_of_ne_zero (show rounds ≠ 0 by omega)
    rw [chunks]
    refine (reads_skipComments_undirected h).bind fun _ _ =>
      (reads_chunk_undirected h inner hne).attempt.bind fun found hfound => ?_
    obtain ⟨command, rfl, rfl⟩ := hfound
    refine (reads_chunks_end h inner rounds).bind fun rest hrest => .pure ?_
    rw [hrest]
    rfl

end Reading

/-! ## 3. With and without the shortcut -/

/-- Reads a whole source, without looking first whether it is plain. -/
def through (reader : Text → Reader Command) (source : Text) : Except ParseError Command :=
  match reader source (.start source) ⟨0, []⟩ with
  | .failed error => .error error
  | .rejected f => .error (.malformed (leftover source (.start source) f))
  | .accepted command c f =>
    match afterComments? (c.rest.length + 1) c with
    | none => .error .exhausted
    | some after =>
      if after.rest.isEmpty then .ok command else .error (.malformed (leftover source after f))

/-- That is what happens behind the look. -/
theorem whole_eq (g : Grammar) (reader : Text → Reader Command) (source : Text) :
    whole g reader source = if IsPlain g source then .ok (.literal source)
      else through reader source := rfl

end Template

/-- The tree of a template that is read even if it is plain. -/
def Grammar.parseThrough (g : Grammar) (origin : Origin) (source : Text) :
    Except ParseError Command :=
  Template.through (Template.chunksWith g origin (source.length + 1) [] .prompt) source

namespace Template

variable {g : Grammar} {source : Text}

theorem parseThrough_undirected (h : g.Undirected source) (origin : Origin) :
    g.parseThrough origin source = .ok (.literal source) := by
  have hreads : (chunksWith g origin (source.length + 1) [] .prompt source).Reads source []
      (· = .literal source) := by
    rw [chunksWith]
    refine .bind_here fun c hc => (reads_chunks_undirected h _ ?_).bind fun read hread =>
      .pure hread
    rw [hc]
    exact Nat.lt_succ_self _
  obtain ⟨command, after, f, hrun, hrest, rfl⟩ := hreads (.start source) ⟨0, []⟩ rfl
  have hafter : Uncommented after.rest := hrest ▸ uncommented_nil
  rw [Grammar.parseThrough, through, hrun]
  simp only [afterComments?_eq_self hafter, hrest, List.isEmpty_nil, if_true]

theorem parse_undirected (h : g.Undirected source) (origin : Origin) :
    g.parse origin source = .ok (.literal source) := by
  rw [Grammar.parse, whole_eq, ← Grammar.parseThrough, parseThrough_undirected h, ite_self]

end Template

/-! ## 4. Prompts -/

section Prompts

variable {env : Environment} (hdepth : 0 < env.depthLimit) (text : Text)
include hdepth

theorem renderOnce_literal (method : Sampling) (ambient : Text) (w : Walking) :
    renderOnce env (.literal text) method ambient w = (.ok text, w) := by
  obtain ⟨depth, hlimit⟩ := Nat.exists_eq_add_one_of_ne_zero (Nat.ne_of_gt hdepth)
  rw [renderOnce, hlimit]
  rfl

theorem renderRepeatedly_literal (method : Sampling) (count : Nat) (s : Session) :
    renderRepeatedly env (.literal text) method count s = (.ok (List.replicate count text), s) := by
  induction count with
  | zero => rfl
  | succ count ih =>
    simp only [renderRepeatedly, renderOnce_literal hdepth, ih, List.replicate_succ]

theorem enumerateDistinct_literal (scope : Scope) (count : Nat) (s : Session) :
    enumerateDistinct env (.literal text) scope (some (count + 1)) s = (.ok [text], s) := by
  obtain ⟨depth, hlimit⟩ := Nat.exists_eq_add_one_of_ne_zero (Nat.ne_of_gt hdepth)
  have hrun : enumerate env (.literal text) scope [] s = .yield ⟨text, scope⟩ s .done := by
    rw [enumerate, hlimit]
    rfl
  rw [enumerateDistinct, Branches.distinctTexts, if_neg (by simp), hrun]
  -- whether or not one text is enough, there is no other
  simp [Run.distinctTexts]

/-- A literal is given as often as it is asked for, and once where all renderings are. Of the
session only the notices tell that anything was generated. -/
theorem prompts_literal (method : Sampling) (count : Nat) (s : Session) :
    (Command.literal text).prompts env method count s =
      let copies := if method = .combinatorial then min count 1 else count
      (.ok (List.replicate copies text),
        if count = 0 then s
        else { s with notices := .generated method count copies :: s.notices }) := by
  cases count with
  | zero => simp [Command.prompts]
  | succ count =>
    by_cases hmethod : method = .combinatorial
    · simp [Command.prompts, hmethod, enumerateDistinct_literal hdepth]
    · simp [Command.prompts, hmethod, renderRepeatedly_literal hdepth]

end Prompts

/-- **Text without directives is returned untouched.** By a grammar that is accepted, it reads to
one literal, whether or not the source is looked at before it is read; and where that look finds
letters and digits only, reading gives the same tree. So its prompts are copies of it: as many as
are asked for, or one where all renderings are. No number is drawn, no wildcard is asked for and no
rotation moves; the reading takes its number. -/
theorem Grammar.undirected_untouched {declaration : GrammarDeclaration} {g : Grammar}
    (h : Grammar.load declaration = .ok g) :
    (∀ source, g.Undirected source → ∀ origin,
      g.parse origin source = .ok (.literal source) ∧
        g.parseThrough origin source = .ok (.literal source)) ∧
    (∀ source, Template.IsPlain g source → ∀ origin,
      g.parseThrough origin source = g.parse origin source) ∧
    ∀ source, g.Undirected source → ∀ (env : Environment), 0 < env.depthLimit →
      ∀ (method : Sampling) (count : Nat) (s : Session),
        generate declaration env (.template source) method.name (.ofNat count) s =
          let copies := if method = .combinatorial then min count 1 else count
          let read := { s with numbered := s.numbered + 1 }
          (.ok (List.replicate copies source), if count = 0 then read
            else { read with notices := .generated method count copies :: s.notices }) := by
  refine ⟨fun source hsource origin => ?_, fun source hplain origin => ?_,
    -- reading gives the text itself, by the short way too, and then there is
    -- nothing to draw or look up
    fun source hsource env hdepth method count s => ?_⟩
  · exact ⟨Template.parse_undirected hsource origin,
      Template.parseThrough_undirected hsource origin⟩
  · have hsource := Template.undirected_of_isPlain hplain
    rw [Template.parse_undirected hsource, Template.parseThrough_undirected hsource]
  · have hname : Sampling.ofName? method.name = some method := by cases method <;> decide
    have hread : (Subject.template source).read g s =
        (.ok (.literal source), { s with numbered := s.numbered + 1 }) := by
      rw [Subject.read, Session.parseTemplate, Template.parse_undirected hsource]
    have hown : 0 < ({ env with grammar := g } : Environment).depthLimit := hdepth
    have hprompts := prompts_literal hown source method count { s with numbered := s.numbered + 1 }
    rw [generate, Number.toNat?_ofNat, hname, h]
    simp only [hread, hprompts]
    rfl

/-- Delimiters that are letters, in place of some of the standard ones. -/
def spelledDeclaration : GrammarDeclaration :=
  .members [(units "variantStart", some (.str (units "BEGIN"))),
    (units "variantEnd", some (.str (units "END"))),
    (units "wildcardWrap", some (.str (units "X")))]

/-- The grammar of these delimiters. -/
def spelled : Grammar :=
  { Grammar.standard with
    variantStart := units "BEGIN", variantEnd := units "END", wildcardWrap := units "X" }

/-- An address, the marks of blocks outside of one, and a comment that is never closed. -/
def addressSource : Text := units "https://a.b | 2::c $$ \x7b1-2\x7d END /* d"

/-- Nothing to draw from, and no wildcard that can be read. -/
def barrenEnvironment : Environment where
  grammar := .standard
  source := fun _ => .nan
  round := .exact
  policy := .error
  resolve := fun name => .error (.noDirectory name)
  depthLimit := 1

theorem Grammar.undirected_untouched_of_address :
    Grammar.load spelledDeclaration = .ok spelled ∧ spelled.Undirected addressSource ∧
      Template.IsPlain spelled (units "BEEND") ∧ 0 < barrenEnvironment.depthLimit ∧
      spelled.parse (.built 0) addressSource = .ok (.literal addressSource) ∧
      spelled.parseThrough (.built 0) addressSource = .ok (.literal addressSource) ∧
      spelled.parseThrough (.built 0) (units "BEEND") = spelled.parse (.built 0) (units "BEEND") ∧
      generate spelledDeclaration barrenEnvironment (.template addressSource)
        (units "cyclical") (.ofNat 2)
        (.fresh 0) = (.ok [addressSource, addressSource],
          { Session.fresh 0 with notices := [.generated .cyclical 2 2], numbered := 2 }) := by
  have hload : Grammar.load spelledDeclaration = .ok spelled := rfl
  have hsource : spelled.Undirected addressSource := by decide +kernel
  have hplain : Template.IsPlain spelled (units "BEEND") := by decide +kernel
  have hdepth : 0 < barrenEnvironment.depthLimit := by decide
  obtain ⟨hreads, hsame, hprompts⟩ := Grammar.undirected_untouched hload
  obtain ⟨hparse, hthrough⟩ := hreads addressSource hsource (.built 0)
  exact ⟨hload, hsource, hplain, hdepth, hparse, hthrough, hsame _ hplain _,
    hprompts addressSource hsource barrenEnvironment hdepth .cyclical 2 _⟩

end PromptTemplate
