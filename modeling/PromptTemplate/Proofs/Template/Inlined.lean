/-
`Inlined.lean` -- the inline variables of a wildcard and where they are in reach.

The bindings between the parentheses of a wildcard are cut at the commas, each pair at its first
equals sign, and each value is read as a template of its own. The variables of the wildcard are the
names in the order in which they first occur, each with the value of the last pair that gives it
(`Template.lookup_setVariables`, `Template.names_setVariables`). Where its candidates render, each
of these names is bound to its tree, and keeps the binding that the name had before
(`lookup_inlineFrame`). One name is left out of all this: `unboundName`.
-/
import PromptTemplate.Proofs.Template.Doubles
import PromptTemplate.Proofs.Template.Wildcards
import PromptTemplate.Proofs.Text.Order

set_option autoImplicit false

namespace PromptTemplate.Template

/-! ## 1. Setting variables -/

section Setting

variable {α : Type} {name other : Text} {value : α} {inlined given : List (Text × α)}

/-- Where a value is replaced, a name that had one has the new one, and all others what they had. -/
theorem lookup_replace :
    (inlined.map fun v => if v.1 = name then (name, value) else v).lookup other =
      (inlined.lookup other).map fun old => if other = name then value else old := by
  induction inlined with
  | nil => rfl
  | cons v inlined ih =>
    obtain ⟨first, old⟩ := v
    rw [List.map_cons, List.lookup_cons]
    -- the entry looked at has the name, or the name sought, or neither
    by_cases hfirst : first = name
    · rw [if_pos hfirst, List.lookup_cons, ih, hfirst]
      by_cases hother : other = name
      · simp [hother]
      · rw [beq_false_of_ne hother]
    · rw [if_neg hfirst, List.lookup_cons, ih]
      by_cases hother : other = first
      · simp [hother, hfirst]
      · rw [beq_false_of_ne hother]

/-- The name that is set has the new value, and all others have what they had. -/
theorem lookup_setVariable :
    (setVariable name value inlined).lookup other =
      if other = name then some value else inlined.lookup other := by
  rw [setVariable]
  -- a name that is there has its value replaced; a new one goes to the end, where lookups find it
  by_cases hany : (inlined.any fun v => v.1 = name) = true
  · rw [if_pos hany, lookup_replace]
    by_cases hsame : other = name
    · obtain ⟨v, hv, hname⟩ := List.any_eq_true.1 hany
      obtain ⟨old, hold⟩ : ∃ old, inlined.lookup other = some old := by
        rw [← Option.isSome_iff_exists, List.lookup_isSome_iff]
        exact ⟨v, hv, by simpa [hsame] using (of_decide_eq_true hname).symm⟩
      rw [hold, Option.map_some, if_pos hsame, if_pos hsame]
    · simp [hsame]
  · have hnone (hsame : other = name) : inlined.lookup other = none := by
      rw [List.lookup_eq_none_iff]
      intro v hv
      rw [bne_iff_ne, hsame]
      exact fun hname => hany (List.any_eq_true.2 ⟨v, hv, decide_eq_true hname.symm⟩)
    rw [if_neg hany, List.lookup_append, List.lookup_cons, List.lookup_nil]
    by_cases hsame : other = name
    · rw [if_pos hsame, hnone hsame, beq_iff_eq.2 hsame]
      rfl
    · rw [if_neg hsame, beq_false_of_ne hsame]
      exact Option.or_none

/-- A name that is there keeps its place, and one that is not comes last. -/
theorem names_setVariable :
    (setVariable name value inlined).map (·.1) =
      if name ∈ inlined.map (·.1) then inlined.map (·.1) else inlined.map (·.1) ++ [name] := by
  have hany : (inlined.any fun v => v.1 = name) = true ↔ name ∈ inlined.map (·.1) := by
    rw [List.any_eq_true, List.mem_map]
    simp only [decide_eq_true_eq]
  rw [setVariable]
  by_cases hmem : name ∈ inlined.map (·.1)
  · rw [if_pos (hany.2 hmem), if_pos hmem, List.map_map]
    refine List.map_congr_left fun v _ => ?_
    dsimp only [Function.comp_apply]
    split
    · next hv => exact hv.symm
    · rfl
  · rw [if_neg (mt hany.1 hmem), if_neg hmem, List.map_append, List.map_singleton]

/-- The last value that is given under a name is the one that it has. -/
theorem lookup_setVariables (hother : other ≠ unboundName) :
    (setVariables given inlined).lookup other =
      (given.reverse.lookup other).or (inlined.lookup other) := by
  induction given generalizing inlined with
  | nil => rfl
  | cons v given ih =>
    have hfirst :
        (if v.1 = unboundName then inlined else setVariable v.1 v.2 inlined).lookup other =
        if other = v.1 then some v.2 else inlined.lookup other := by
      -- the name that is not bound changes nothing, and it is not the one looked up
      by_cases hunbound : v.1 = unboundName
      · rw [if_pos hunbound, if_neg (hunbound ▸ hother)]
      · rw [if_neg hunbound, lookup_setVariable]
    rw [setVariables_cons, ih, hfirst, List.reverse_cons, List.lookup_append, List.lookup_cons,
      List.lookup_nil]
    by_cases hsame : other = v.1
    · rw [if_pos hsame, beq_iff_eq.2 hsame, Option.or_assoc]
      rfl
    · rw [if_neg hsame, beq_false_of_ne hsame, Option.or_assoc]
      rfl

/-- The names stand in the order in which they are given for the first time. -/
theorem names_setVariables (given : List (Text × α)) :
    (setVariables given []).map (·.1) =
      ((given.map (·.1)).filter (· != unboundName)).eraseDups := by
  -- the last pair is set last, so the induction takes pairs off the end
  induction given using List.reverseRecOn with
  | nil => rfl
  | append_singleton given v ih =>
    have hnames : (given ++ [v]).map (·.1) = given.map (·.1) ++ [v.1] := by
      rw [List.map_append, List.map_singleton]
    by_cases hunbound : v.1 = unboundName
    · have hset : setVariables (given ++ [v]) [] = setVariables given [] := by
        simp [setVariables, hunbound]
      have hnone : [v.1].filter (· != unboundName) = [] := by simp [hunbound]
      rw [hset, ih, hnames, List.filter_append, hnone, List.append_nil]
    · have hset : setVariables (given ++ [v]) [] = setVariable v.1 v.2 (setVariables given []) := by
        simp [setVariables, hunbound]
      have hsingle : [v.1].filter (· != unboundName) = [v.1] := by simp [hunbound]
      rw [hset, names_setVariable, ih, hnames, List.filter_append, hsingle, List.eraseDups_append]
      -- a name that was there keeps its place, and a new one goes to the end
      by_cases hmem : v.1 ∈ (given.map (·.1)).filter (· != unboundName)
      · rw [if_pos (List.mem_eraseDups.2 hmem)]
        simp [List.removeAll, hmem]
      · rw [if_neg (mt List.mem_eraseDups.1 hmem)]
        simp [List.removeAll, hmem, List.eraseDups_cons]

end Setting

/-! ## 2. Pairs -/

/-- The names and values in the bindings of a wildcard, if it has any. -/
def boundPairs (bindings : Option Text) : List (Text × Text) := (pairsOf bindings).map splitBinding

/-- A value is read as it would be as a template, up to labels. -/
theorem exists_parse_of_value {g : Grammar} (hopens : g.Opens) {origin : Origin} {depth : Nat}
    {base base' : List Nat} {source value : Text} {command : Command}
    (h : (innerAt g origin depth base source).value base' value = .ok command) :
    ∃ parsed, g.parse origin value = .ok parsed ∧ parsed.Alike command := by
  have hagree : ParseError.Agree .loose Command.Alike (g.parse origin value)
      ((innerAt g origin depth base source).value base' value) :=
    whole_agree_self (k := .loose) (Cursor.Twin.refl _) trivial
      (chunksWith_agree_loose g origin origin _ depth [] base' .prompt value value)
  -- without a counter to run out of, an outcome of the whole reader
  -- excludes that of the bounded one
  have hproper := parse_proper hopens origin value
  rw [h] at hagree
  cases hparse : g.parse origin value with
  | ok parsed =>
    rw [hparse] at hagree
    cases hagree with
    | ok halike => exact ⟨parsed, rfl, halike⟩
  | error error =>
    rw [hparse] at hagree hproper
    cases hagree with
    | exhausted_left => cases hproper

/-- What is given by pairs is looked up where the values of the pairs are. -/
theorem lookup_given {inner : Inner} {pairs : List Text} {given : List (Text × Command)}
    (h : List.Forall₂ inner.GivenBy pairs given) {name : Text} {command : Command}
    (hlookup : given.lookup name = some command) :
    ∃ value, (pairs.map splitBinding).lookup name = some value ∧ ∃ base, inner.value base value =
      .ok command := by
  induction h with
  | nil => cases hlookup
  | @cons pair v pairs given hv _ ih =>
    rw [List.map_cons, List.lookup_cons]
    rw [List.lookup_cons] at hlookup
    -- pairs and what they gave have the same names, so the lookups stop at the same place
    by_cases hname : name = v.1
    · rw [beq_iff_eq.2 hname, Option.some_inj] at hlookup
      subst hlookup
      rw [beq_iff_eq.2 (hname.trans hv.name)]
      exact ⟨_, rfl, hv.value⟩
    · rw [beq_false_of_ne hname] at hlookup
      rw [beq_false_of_ne (hv.name ▸ hname)]
      exact ih hlookup

end PromptTemplate.Template

namespace PromptTemplate

/-! ## 3. Scopes -/

/-- The frame of inline variables binds their names and no others. -/
theorem lookup_inlineFrame {inlined : List (Text × Command)}
    (hbound : unboundName ∉ inlined.map (·.1)) (scope : Scope) (name : Text) :
    (inlineFrame scope inlined).lookup name =
      (inlined.lookup name).map fun command => some (.deferred command (scope.lookup name)) := by
  induction inlined with
  | nil => rfl
  | cons v inlined ih =>
    rw [List.map_cons, List.mem_cons, not_or] at hbound
    -- only the name that is never bound is filtered out of the frame
    have hkept : (v.1 != unboundName) = true := bne_iff_ne.2 (Ne.symm hbound.1)
    have hframe : inlineFrame scope (v :: inlined) =
        (v.1, some (.deferred v.2 (scope.lookup v.1))) :: inlineFrame scope inlined := by
      simp only [inlineFrame, List.filter_cons, hkept, if_true, List.map_cons]
    rw [hframe, List.lookup_cons, List.lookup_cons, ih hbound.2]
    by_cases hname : name = v.1
    · rw [beq_iff_eq.2 hname, hname]
      rfl
    · rw [beq_false_of_ne hname]

/-! ## 4. Templates -/

/-- Inline variables are what pairs of names and values give: their names but for one, in the order
in which they occur first, each with the tree of the last value that it has. In every scope each of
them reads as its tree, which keeps the binding of the name around it, and all other names as they
did. -/
structure Inlines (g : Grammar) (origin : Origin) (pairs : List (Text × Text))
    (inlined : List (Text × Command)) :
    Prop where
  isName : ∀ pair ∈ pairs, isVariableName pair.1 = true
  parses : ∀ pair ∈ pairs, ∃ tree, g.parse origin pair.2 = .ok tree
  names : inlined.map (·.1) = ((pairs.map (·.1)).filter (· != unboundName)).eraseDups
  value : ∀ v ∈ inlined, ∃ value tree,
    pairs.reverse.lookup v.1 = some value ∧ g.parse origin value = .ok tree ∧ tree.Alike v.2
  reach : ∀ (scope : Scope), ∀ v ∈ inlined,
    (scope.push (inlineFrame scope inlined)).lookup v.1 = some (.deferred v.2 (scope.lookup v.1))
  others : ∀ (scope : Scope), ∀ name ∉ inlined.map (·.1),
    (scope.push (inlineFrame scope inlined)).lookup name = scope.lookup name

open Template in
theorem Inlines.of_given {g : Grammar} (hopens : g.Opens) {origin : Origin} {depth : Nat}
    {base : List Nat} {source : Text} {pairs : List Text} {given : List (Text × Command)}
    (h : List.Forall₂ (innerAt g origin depth base source).GivenBy pairs given) :
    Inlines g origin (pairs.map splitBinding) (setVariables given []) := by
  have hgiven : given.map (·.1) = (pairs.map splitBinding).map (·.1) := by
    rw [List.map_map]
    induction h with
    | nil => rfl
    | cons hv _ ih =>
      rw [List.map_cons, List.map_cons, ih, hv.name]
      rfl
  have hpairs : ∀ pair ∈ pairs.map splitBinding,
      isVariableName pair.1 = true ∧ ∃ tree, g.parse origin pair.2 = .ok tree := by
    rw [List.forall_mem_map]
    clear hgiven
    induction h with
    | nil => exact List.forall_mem_nil _
    | cons hv _ ih =>
      obtain ⟨base', hvalue⟩ := hv.value
      obtain ⟨tree, hparse, -⟩ := exists_parse_of_value hopens hvalue
      exact List.forall_mem_cons.2 ⟨⟨hv.name ▸ hv.isName, tree, hparse⟩, ih⟩
  -- from here on only the names matter: no name twice, and not the one that is never bound
  have hnames := names_setVariables given
  rw [hgiven] at hnames
  have hbound : unboundName ∉ (setVariables given []).map (·.1) := by
    rw [hnames, List.mem_eraseDups, List.mem_filter]
    simp
  have hlookup : ∀ v ∈ setVariables given [], (setVariables given []).lookup v.1 = some v.2 :=
    fun v hv => Text.lookup_of_mem (hnames ▸ Text.nodup_eraseDups _) hv
  refine ⟨fun pair hpair => (hpairs pair hpair).1, fun pair hpair => (hpairs pair hpair).2, hnames,
    fun v hv => ?_, fun scope v hv => ?_, fun scope name hname => ?_⟩
  -- the entry is the last pair of its name, whose value was read at its own place
  · have hne : v.1 ≠ unboundName := fun heq => hbound (heq ▸ List.mem_map_of_mem hv)
    have hlast := hlookup v hv
    rw [lookup_setVariables hne, List.lookup_nil, Option.or_none] at hlast
    obtain ⟨value, hvalue, base', hread⟩ := lookup_given (List.rel_reverse h) hlast
    obtain ⟨tree, hparse, halike⟩ := exists_parse_of_value hopens hread
    exact ⟨value, tree, by rw [← List.map_reverse, hvalue], hparse, halike⟩
  · rw [Scope.lookup_push, lookup_inlineFrame hbound, hlookup v hv]
    rfl
  · have hnone : (setVariables given []).lookup name = none := by
      rw [List.lookup_eq_none_iff]
      intro v hv
      exact bne_iff_ne.2 fun heq => hname (heq ▸ List.mem_map_of_mem hv)
    rw [Scope.lookup_push, lookup_inlineFrame hbound, hnone]
    rfl

open Template in
/-- **The inline variables of a wildcard reach its candidates, all but one.** By a grammar that is
accepted, every wildcard of a tree was read at a place of the source, or of the value of an inline
variable in it, where it stands with its bindings in parentheses or without; its label says where.
Its inline variables are what the pairs of the bindings give (`Inlines`): their names but for
`unboundName`, in the order in which they occur first, each with the tree of its last value. In
whatever scope the wildcard renders, its candidates find each name bound to this tree, with the
binding that the scope had for it kept, and every other name as in the scope. -/
theorem Grammar.parse_inlines {declaration : GrammarDeclaration} {g : Grammar}
    (h : load declaration = .ok g) {origin : Origin} {source : Text} {tree : Command}
    (hparse : g.parse origin source = .ok tree) :
    tree.Everywhere fun node => ∀ label name inlined sampling,
      node = .wildcard label name inlined sampling →
      ∃ text, Contains source text ∧ ∃ depth base start path bindings after,
        WildcardBlock ⟨g, origin, base, text⟩ (innerAt g origin depth base text) start sampling path
          bindings after ∧
        label = ⟨base ++ [start.position], origin⟩ ∧
        Command.makeWildcard label (.rendered (.ofList path)) inlined sampling = .ok node ∧
        Inlines g origin (boundPairs bindings) inlined := by
  have hopens := Grammar.opens_of_load h
  refine (everywhere_sited hparse).mono fun node hsited label name inlined sampling hnode => ?_
  subst hnode
  obtain ⟨text, hcontains, depth, base, start, ⟨sampling', path, bindings, after, given, inlined',
      hblock, hgiven,
    rfl, hmade⟩⟩ := hsited trivial
  obtain ⟨plain, hwildcard, -⟩ := Command.exists_of_makeWildcard hmade
  obtain ⟨rfl, rfl, rfl, rfl⟩ := Command.wildcard.inj hwildcard
  exact ⟨text, hcontains, depth, base, start, path, bindings, after, hblock, rfl, hmade,
    .of_given hopens hgiven⟩

/-- A wildcard in which one name is given twice. -/
def petsSource : Text := units "__pets(size=big, color = \x7bred|blue\x7d, size=small)__"

/-- What is read of a template that is one wildcard with some inline variables. -/
theorem exists_parse_of_inlined {source : Text} {p : List (Text × Command) → Bool}
    (h : ((Grammar.standard.parse (.built 0) source).toOption.bind Command.inlined?).any p = true) :
    ∃ label name inlined sampling,
      Grammar.standard.parse (.built 0) source = .ok (.wildcard label name inlined sampling) ∧
        p inlined = true := by
  obtain ⟨inlined, hbind, hp⟩ := (Option.any_eq_true _ _).1 h
  obtain ⟨tree, htree, hinlined⟩ := Option.bind_eq_some_iff.1 hbind
  obtain ⟨label, name, sampling, rfl⟩ := Command.exists_of_inlined? hinlined
  refine ⟨label, name, inlined, sampling, ?_, hp⟩
  cases hparse : Grammar.standard.parse (.built 0) source with
  | error error => rw [hparse] at htree; cases htree
  | ok read => rw [hparse] at htree; cases htree; rfl

/-- The name stands once, and in every scope both names are in reach. -/
theorem Grammar.parse_inlines_of_pets :
    load .absent = .ok .standard ∧ ∃ label name inlined sampling,
      standard.parse (.built 0) petsSource = .ok (.wildcard label name inlined sampling) ∧
      inlined.map (·.1) = [units "size", units "color"] ∧
      ∀ (scope : Scope), ∀ v ∈ inlined,
        (scope.push (inlineFrame scope inlined)).lookup v.1 =
          some (.deferred v.2 (scope.lookup v.1)) := by
  have hload : load .absent = .ok .standard := rfl
  obtain ⟨label, name, inlined, sampling, hparse, hnames⟩ := @exists_parse_of_inlined petsSource
    (fun inlined => inlined.map (·.1) = [units "size", units "color"]) (by decide +kernel)
  obtain ⟨text, -, depth, base, start, path, bindings, after, -, -, -, hinlines⟩ :=
    (Grammar.parse_inlines hload hparse).here label name inlined sampling rfl
  exact ⟨hload, label, name, inlined, sampling, hparse, of_decide_eq_true hnames, hinlines.reach⟩

/-- A wildcard that gives a value to the one name under which nothing is passed on. -/
def protoSource : Text := units "__pets(__proto__=x)__"

/-- Not every name is in reach: this one is a name of a variable, and the wildcard has none. -/
theorem Grammar.parse_not_inlines_every_name :
    isVariableName unboundName = true ∧ Template.boundPairs (some (units "__proto__=x")) =
      [(unboundName, units "x")] ∧
      ∃ label name sampling, standard.parse (.built 0) protoSource =
        .ok (.wildcard label name [] sampling) ∧
        ((Scope.root []).push (inlineFrame (.root []) [])).lookup unboundName = none := by
  obtain ⟨label, name, inlined, sampling, hparse, hnone⟩ := @exists_parse_of_inlined protoSource
    List.isEmpty (by decide +kernel)
  rw [List.isEmpty_iff.1 hnone] at hparse
  exact ⟨by decide, by decide, label, name, sampling, hparse, rfl⟩

end PromptTemplate
