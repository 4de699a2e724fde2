/-
`Parsing.lean` -- how reading a template ends.

Reading ends in a tree or in one of three errors, and a tree is normal. The productions are
proved over what their recursive calls do; here the circle is closed by induction on the
depth of blocks (`chunksWith_ensures`). The depth is no bound of its own: a call is only
made where less of the source is left than before, and the depth begins above the length
of the source, so neither it nor the rounds of a loop ever run out.

One of the errors is meant by no production: behind an inline variable of the one name that
makes no entry, a name that is a field of the tree given there is refused.
-/
import PromptTemplate.Proofs.Grammar.Declarations
import PromptTemplate.Proofs.Template.Places

set_option autoImplicit false

namespace PromptTemplate

/-! ## 1. Delimiters -/

namespace Grammar

/-- Every grammar that is accepted opens its blocks with something. -/
theorem opens_of_load {declaration : GrammarDeclaration} {g : Grammar}
    (h : load declaration = .ok g) : g.Opens := by
  have hproper := (of_validate (validate_eq_ok_iff.2 h)).2
  have hpos : ∀ field ∈ g.fields, 0 < field.2.length := fun field hfield =>
    List.length_pos_iff.2 (hproper.delimits field hfield).ne_nil
  refine ⟨hpos (units "variantStart", _) ?_, hpos (units "variableStart", _) ?_,
    hpos (units "wrapStart", _) ?_, hpos (units "wildcardWrap", _) ?_⟩
  all_goals simp [fields]

end Grammar

namespace Template

/-! ## 2. The recursion -/

/-- A whole source, if the reader of its chunks is right at the beginning of it. -/
theorem whole_proper {g : Grammar} {reader : Text → Reader Command} {source : Text}
    (h : (reader source).Ensures (.start source) fun command _ =>
      command.Everywhere Command.Normal) :
    Proper (whole g reader source) := by
  unfold whole
  by_cases hliteral : (source.isAlphanumeric && !(g.openers.any fun opener =>
    source.includes opener)) = true
  · rw [if_pos hliteral]
    exact .literal source
  · rw [if_neg hliteral]
    have hrun := h ⟨0, []⟩
    cases hread : reader source (.start source) ⟨0, []⟩ with
    | failed error =>
      rw [hread] at hrun
      exact hrun
    | rejected f => exact .malformed _ fun _ hcause => by cases hcause
    | accepted command c f =>
      -- what is left behind the chunks may only be comments
      rw [hread] at hrun
      obtain ⟨after, hafter, -⟩ := afterComments_isSome (Nat.lt_succ_self c.left)
      rw [Cursor.left] at hafter
      simp only [hafter]
      by_cases hall : after.rest.isEmpty = true
      · rw [if_pos hall]
        exact hrun
      · rw [if_neg hall]
        exact .malformed _ fun _ hcause => by cases hcause

/-- Chunks, where less is left than there is depth. The induction is on the depth; the
recursive calls of one depth are right because less is left where they are made. -/
theorem chunksWith_ensures {g : Grammar} (hopens : g.Opens) (origin : Origin) (depth : Nat)
    (base : List Nat) (context : Context) (source : Text) {c : Cursor} (hdepth : c.left < depth) :
    (chunksWith g origin depth base context source).Ensures c fun command after =>
      after.left ≤ c.left ∧ command.Everywhere Command.Normal := by
  induction depth generalizing base context source c with
  | zero => exact absurd hdepth (Nat.not_lt_zero _)
  | succ depth ih =>
    -- both kinds of calls are made with one depth less, and only where less is left
    have hinner : Inner.Sound ⟨chunksWith g origin depth base .block source,
        fun base value => whole g (chunksWith g origin depth base .prompt) value⟩ c.left := by
      refine ⟨fun place hplace => ih base .block source (by omega), fun base value hvalue =>
        whole_proper ?_⟩
      have hstart : (Cursor.start value).left < depth :=
        Nat.lt_of_lt_of_le hvalue (Nat.le_of_lt_succ hdepth)
      exact (ih base .prompt value hstart).mono fun command after hread => hread.2
    rw [chunksWith]
    have hchunks := chunks_ensures (s := ⟨g, origin, base, source⟩) hopens hinner context
      (Nat.lt_succ_self c.left) (Nat.le_refl _)
    refine .bind_here (hchunks.bind fun read after hread => .pure ⟨hread.1, ?_⟩)
    exact Command.ofList_normal (fun command hmem => (hread.2 command hmem).child)
      fun command hmem => (hread.2 command hmem).normal

/-- Reading a template ends in a normal tree or in a proper error. -/
theorem parse_proper {g : Grammar} (hopens : g.Opens) (origin : Origin) (source : Text) :
    Proper (g.parse origin source) := by
  -- a depth above the length of the source is never used up
  have hread := chunksWith_ensures hopens origin (source.length + 1) [] .prompt source
    (c := .start source) (Nat.lt_succ_self _)
  exact whole_proper (hread.mono fun command after hread => hread.2)

/-- A name is refused only if the one name that makes no entry stands in the source, for the
values of inline variables stand there too. -/
theorem Raised.infix_source {g : Grammar} {origin : Origin} {source : Text} {error : ParseError}
    (h : Raised g origin source error) {name record : Text}
    (herror : error = .readOnly name record) :
    unboundName <:+: source := by
  induction h with
  | located => cases herror
  | refused => cases herror
  | readOnly hinfix => exact hinfix
  | value hreached _ _ _ ih =>
    exact (ih herror).trans ((infix_splitBinding _).2.trans hreached.infix_source)

/-- The ways in which reading a source ends: a tree, a malformed source, where only a pattern
that does not compile stands for a refused node, a variant whose lower bound is above the upper
one, or an inline variable with the name of a node's field behind `unboundName`. -/
def ReadingEnds (source : Text) (result : Except ParseError Command) : Prop :=
  (∃ tree, result = .ok tree) ∨
    (∃ error, result = .error (.malformed error) ∧
      ∀ cause, error.fault = .pattern cause → ∃ expression fault,
      cause = .pattern expression fault) ∨
    (∃ least most, most < least ∧ result = .error (.refused (.invertedBounds least most))) ∨
    ∃ name record, result = .error (.readOnly name record) ∧ unboundName <:+: source ∧
      ∃ node : Command, name ∈ node.fields

/-- The error that reading ended in. -/
def error? : Except ParseError Command → Option ParseError
  | .error error => some error
  | .ok _ => none

theorem eq_of_error? {read : Except ParseError Command} {error : ParseError}
    (h : error? read = some error) : read = .error error := by
  cases read with
  | error other => rw [Option.some.inj h]
  | ok tree => cases h

end Template

/-! ## 3. Templates -/

/-- **Reading ends, and only in four ways.** By a grammar that is accepted, every source
reads to a tree, or is malformed at a place, or has a variant whose lower bound is above
the upper one, or gives inline variables a name that is refused, which takes `unboundName` in
the source. Neither the depth of blocks nor the rounds of a loop are ever exhausted, and no
other check of a constructor fails: where a malformed source stands for a refused node, it is
for a pattern that does not compile. -/
theorem Grammar.parse_ends {declaration : GrammarDeclaration} {g : Grammar}
    (h : load declaration = .ok g) (origin : Origin) (source : Text) :
    Template.ReadingEnds source (g.parse origin source) := by
  have hopens := Grammar.opens_of_load h
  have hproper := Template.parse_proper hopens origin source
  have hplaced := Template.parse_placed hopens origin source
  cases hparse : g.parse origin source with
  | ok tree => exact .inl ⟨tree, rfl⟩
  | error error =>
    rw [hparse] at hproper hplaced
    cases hproper with
    | malformed error only => exact .inr (.inl ⟨error, rfl, only⟩)
    | inverted least most hinverted => exact .inr (.inr (.inl ⟨least, most, hinverted, rfl⟩))
    | readOnly name record node hfield =>
      exact .inr (.inr (.inr ⟨name, record, rfl, (hplaced nofun).infix_source rfl, node, hfield⟩))

/-- Delimiters of two units each in place of some of the standard ones. -/
def angledDeclaration : GrammarDeclaration :=
  .members [(units "variantStart", some (.str (units "<<"))),
    (units "variantEnd", some (.str (units ">>"))),
    (units "wildcardWrap", some (.str (units "@@")))]

/-- The grammar of these delimiters. -/
def angled : Grammar :=
  { Grammar.standard with
    variantStart := units "<<"
    variantEnd := units ">>"
    wildcardWrap := units "@@" }

theorem load_angledDeclaration : Grammar.load angledDeclaration = .ok angled := rfl

/-- Bounds the wrong way round are one of the ways, whatever stands before them. -/
theorem Grammar.parse_ends_of_angled :
    load angledDeclaration = .ok angled ∧
      Template.ReadingEnds (units "a @@n@@ <<2-1$$x|y>>")
        (angled.parse (.built 0) (units "a @@n@@ <<2-1$$x|y>>")) :=
  ⟨rfl, Grammar.parse_ends load_angledDeclaration (.built 0) (units "a @@n@@ <<2-1$$x|y>>")⟩

/-- An inline variable with the name of a field, behind the one name that makes no entry. -/
def refusedSource : Text := units "__a(__proto__=x,type=y)__"

/-- The last way is open: this source is neither read nor malformed, nor has it a variant. -/
theorem Grammar.parse_refusedSource :
    standard.parse (.built 0) refusedSource =
      .error (.readOnly (units "type") (units "#<Object>")) ∧
      ¬((∃ tree, standard.parse (.built 0) refusedSource = .ok tree) ∨
        (∃ error, standard.parse (.built 0) refusedSource = .error (.malformed error)) ∨
        ∃ least most, standard.parse (.built 0) refusedSource =
          .error (.refused (.invertedBounds least most))) := by
  have hparse : standard.parse (.built 0) refusedSource =
      .error (.readOnly (units "type") (units "#<Object>")) :=
    Template.eq_of_error? (by decide +kernel)
  refine ⟨hparse, ?_⟩
  rw [hparse]
  rintro (⟨tree, h⟩ | ⟨error, h⟩ | ⟨least, most, h⟩) <;> cases h

/-- **What is read is in normal form.** Every node of a tree that is read is normal, those
of the names and of the inline variables of wildcards included. -/
theorem Grammar.parse_normal {declaration : GrammarDeclaration} {g : Grammar}
    (h : load declaration = .ok g) {origin : Origin} {source : Text} {tree : Command}
    (hparse : g.parse origin source = .ok tree) :
    tree.Everywhere Command.Normal := by
  have hproper := Template.parse_proper (Grammar.opens_of_load h) origin source
  rw [hparse] at hproper
  exact hproper

/-- Blocks in blocks, with blanks at the end of their operands and in the value of an
inline variable. -/
def nestedSource : Text :=
  units "@@n<<x |y >>(v= <<.5::z >>)@@ <<k~=a:: b %\x7b c $$ d\x7d |e >> " ++
    units "$\x7ba := 2 <<0-5$$ and $$1::p |.5:: q >> \x7d"

theorem Grammar.parse_normal_of_nested :
    load angledDeclaration = .ok angled ∧
      ∃ tree, angled.parse (.built 0) nestedSource = .ok tree ∧ tree.Everywhere Command.Normal := by
  have hread : (angled.parse (.built 0) nestedSource).isOk = true := by decide +kernel
  cases hparse : angled.parse (.built 0) nestedSource with
  | error error =>
    rw [hparse] at hread
    cases hread
  | ok tree => exact ⟨rfl, tree, rfl, Grammar.parse_normal load_angledDeclaration hparse⟩

end PromptTemplate
