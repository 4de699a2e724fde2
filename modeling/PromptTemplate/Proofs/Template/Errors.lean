/-
`Errors.lean` -- where the error of a malformed template is.

An error carries an offset, a line and a column, all of one text. That text is the
template, or the value of an inline variable in it, which is read as a template of its
own: its errors count from the beginning of the value. Which of the two it is depends on
what raised the error (`Template.RaisedIn`). A report of an error in the text that it counts
in puts the caret under the unit at its offset.
-/
import PromptTemplate.Proofs.Template.Addresses
import PromptTemplate.Proofs.Template.Doubles

set_option autoImplicit false

namespace PromptTemplate

/-! ## 1. Reports -/

/-- The report of an error on a text shows the line that holds its offset, and the caret
stands under what follows there, or behind the line. -/
def SyntaxError.PointsInto (t : Text) (e : SyntaxError) : Prop :=
  ∃ before, before.length = e.column - 1 ∧
    e.report t = [e.message,
      units "  " ++ before ++ (t.drop e.position).takeWhile (· != 10),
      units "  " ++ List.replicate before.length 32 ++ units "^"]

theorem SyntaxError.LocatedIn.pointsInto {t : Text} {e : SyntaxError} (h : e.LocatedIn t) :
    e.PointsInto t := by
  obtain ⟨line, hleads, hleft⟩ := leadsTo_locate h.inside
  rw [← h.address] at hleads hleft
  have hlength : (line.take (e.column - 1)).length = e.column - 1 := by
    have : e.column ≤ line.length + 1 := hleads.column_le
    rw [List.length_take]
    omega
  refine ⟨line.take (e.column - 1), hlength, ?_⟩
  rw [report, hleads.line_eq, Option.getD_some, hlength, ← hleft, List.append_assoc (units "  ")
    (line.take _), List.take_append_drop]

/-! ## 2. Errors of templates -/

/-- Without a parenthesis nothing but the text itself is read. -/
theorem Template.Contains.eq_of_not_mem {source text : Text} (h : Contains source text)
    (hopen : unit '(' ∉ source) : text = source := by
  cases h with
  | itself => rfl
  | value before content after pair text closed isPair inner =>
    exact absurd (by simp [units, unit, unitsOfChar]) hopen

/-- Reading the text is what raises the error in the course of reading the source: the text is
the source itself, or reading came to an inline variable whose value, read as a template, gives
this error, and the text is what raises it there. -/
inductive Template.RaisedIn (g : Grammar) (origin : Origin) (error : ParseError) :
    Text → Text → Prop
  | itself (source : Text) : RaisedIn g origin error source source
  | value {source pair text : Text} {depth : Nat} {base : List Nat}
    (reached : Reached ⟨g, origin, base, source⟩ (innerAt g origin depth base source) pair)
    (isName : isVariableName (splitBinding pair).1 = true)
    (fails : g.parse origin (splitBinding pair).2 = .error error)
    (within : RaisedIn g origin error (splitBinding pair).2 text) :
    RaisedIn g origin error source text

/-- An error at a place is located in the text that raises it. The induction goes from value to
value, and each of them stands between parentheses. -/
theorem Template.Raised.exists_located {g : Grammar} (hopens : g.Opens) {origin : Origin}
    {source : Text} {error : ParseError} (h : Raised g origin source error) {e : SyntaxError}
    (herror : error = .malformed e) :
    ∃ text, Contains source text ∧ RaisedIn g origin error source text ∧ e.LocatedIn text := by
  -- by the way the error came up: raised in this text, or in the value of a pair of this text
  induction h with
  | @located source _ hlocated =>
    cases herror
    exact ⟨source, .itself source, .itself source, hlocated⟩
  | refused => cases herror
  | readOnly => cases herror
  | @value source pair error _ _ _ hreached hname hfails _ ih =>
    obtain ⟨text, hcontains, hraised, hlocated⟩ := ih herror
    obtain ⟨content, ⟨hclosed, before, after, hsource⟩, hpair⟩ := hreached.parenthesized
    have hparse := parse_of_value_error hopens hfails (by rw [herror]; nofun)
    refine ⟨text, ?_, .value hreached hname hparse hraised, hlocated⟩
    have hsource' : source = before ++ units "(" ++ content ++ units ")" ++ after := hsource
    exact hsource' ▸ .value before content after pair text hclosed hpair hcontains

/-- **An error is located in what raised it.** By a grammar that is accepted, the error of a
malformed source is at a place of the source or of the value of an inline variable in it,
with the line and the column of that place, with what stands there, and with the caret
under it. It is at a place of such a value only if reading the value raises it, and the value
stands between parentheses. -/
theorem Grammar.parse_error_located {declaration : GrammarDeclaration} {g : Grammar}
    (h : load declaration = .ok g) {origin : Origin} {source : Text} {e : SyntaxError}
    (hparse : g.parse origin source = .error (.malformed e)) :
    ∃ text, Template.Contains source text ∧ (unit '(' ∉ source → text = source) ∧
      Template.RaisedIn g origin (.malformed e) source text ∧
      e.LocatedIn text ∧ e.PointsInto text := by
  have hopens := Grammar.opens_of_load h
  have hplaced := Template.parse_placed hopens origin source
  rw [hparse] at hplaced
  obtain ⟨text, hcontains, hraised, hlocated⟩ := (hplaced nofun).exists_located hopens rfl
  exact ⟨text, hcontains, hcontains.eq_of_not_mem, hraised, hlocated, hlocated.pointsInto⟩

/-- A variant that is opened in the value of an inline variable and not closed there. -/
def unclosedValue : Text := units "__a(x=\x7b)__"

/-- The error of this value: at the end of its only unit. -/
def unclosedError : SyntaxError where
  fault := .unexpected [units "number", units "\"::\"", units "\"\x7b\"", units "\"$\x7b\"",
    units "\"%\x7b\"", units "\"__\"", units "text", units "\"\x7d\"", units "\"|\""] none
  position := 1
  line := 1
  column := 2

theorem parse_unclosedValue :
    Grammar.standard.parse (.built 0) unclosedValue = .error (.malformed unclosedError) :=
  Template.eq_of_error? (by decide +kernel)

theorem Grammar.parse_error_located_of_unclosedValue :
    load .absent = .ok .standard ∧
      Grammar.standard.parse (.built 0) unclosedValue = .error (.malformed unclosedError) ∧
      ∃ text, Template.Contains unclosedValue text ∧
        (unit '(' ∉ unclosedValue → text = unclosedValue) ∧
        Template.RaisedIn .standard (.built 0) (.malformed unclosedError) unclosedValue text ∧
        unclosedError.LocatedIn text ∧ unclosedError.PointsInto text := by
  have hload : load .absent = .ok .standard := rfl
  exact ⟨hload, parse_unclosedValue, Grammar.parse_error_located hload parse_unclosedValue⟩

/-- An error in the value of an inline variable need not be located in the template: here it
reports the end of input at the second unit of ten. -/
theorem Grammar.parse_error_not_located :
    ∃ e, Grammar.standard.parse (.built 0) unclosedValue = .error (.malformed e) ∧
      ¬e.LocatedIn unclosedValue := by
  refine ⟨unclosedError, parse_unclosedValue, fun hlocated => ?_⟩
  have hfound := hlocated.found _ _ rfl
  exact absurd hfound (by decide)

end PromptTemplate
