/-
`Coverage.lean` -- what has been checked of wildcards is what generating reads.

The check goes through the listed names of a directory and reads the values that each resolves to;
generating asks for whatever names come out of rendering. As long as the files stay as they are,
the listing covers all names (`WildcardDirectory.exists_listed_of_standing`), and reading a value
does not depend on what it is read for (`Template.parse_agree`), so no value that generating can
come across is left unchecked.
-/
import PromptTemplate.CommandLine.Validate
import PromptTemplate.Generation.Asking
import PromptTemplate.Proofs.Generation.Values
import PromptTemplate.Proofs.Template.Doubles
import PromptTemplate.Proofs.Wildcard.Steady

set_option autoImplicit false

namespace PromptTemplate

/-! ## 1. The check -/

/-- Values without faults can be read. -/
theorem parses_of_valueFaults {g : Grammar} {name : Text} {values : List Text}
    (h : valueFaults g name values = []) :
    ∀ value ∈ values, ∃ tree, g.parse (.template 0) value = .ok tree := by
  intro value hvalue
  have hnone := List.filterMap_eq_nil_iff.1 h value hvalue
  cases hparse : g.parse (.template 0) value with
  | ok tree => exact ⟨tree, rfl⟩
  | error error => rw [hparse] at hnone; cases hnone

variable {files : FileTree} {g : Grammar}

open WildcardDirectory in
/-- Collections without faults: each name resolves, and to values that can be read. -/
theorem parses_of_checkCollections {fresh d : WildcardDirectory} (hd : AskedFrom files fresh d)
    {names : List Text} {count : Nat} (h : checkCollections files g names d = .ok (count, [])) :
    ∀ name ∈ names, ∃ values, standing files fresh name = .ok values ∧
      ∀ value ∈ values, ∃ tree, g.parse (.template 0) value = .ok tree := by
  induction names generalizing d count with
  | nil => exact List.forall_mem_nil _
  | cons name names ih =>
    obtain ⟨hresolved, hafter⟩ := hd.resolve name
    rw [checkCollections] at h
    revert hresolved hafter h
    generalize d.resolve files name = resolved
    obtain ⟨result, d'⟩ := resolved
    intro h hresolved hafter
    cases result with
    | error error => cases h
    | ok values =>
      -- no faults in all means none in the values of this name and none in the other names
      obtain ⟨⟨others, faults⟩, hrest, hsum⟩ := exists_of_map_ok h
      obtain ⟨hfaults, rfl⟩ := List.append_eq_nil_iff.1 (Prod.ext_iff.1 hsum).2
      refine List.forall_mem_cons.2 ⟨⟨values, hresolved.symm, parses_of_valueFaults hfaults⟩,
        ih hafter hrest⟩

open WildcardDirectory in
/-- A check that passes where there is a directory has read the values of all listed names. -/
theorem parses_of_wildcardsStep {path : Text} {declaration : GrammarDeclaration} {required : Bool}
    (hload : Grammar.load declaration = .ok g) (hexists : files.has path = true)
    (h : (wildcardsStep files path declaration required).success = true) :
    ∃ d, ofPath files path = .ok d ∧ ∀ name ∈ listing d.base files, ∃ values,
      standing files d name = .ok values ∧ ∀ value ∈ values, ∃ tree, g.parse (.template 0) value =
        .ok tree := by
  have hhas : ¬(!files.has path) = true := by simp [hexists]
  unfold wildcardsStep at h
  dsimp only at h
  rw [if_neg hhas, hload] at h
  cases hd : ofPath files path with
  | error error => rw [hd] at h; cases h
  | ok d =>
    rw [hd] at h
    dsimp only at h
    obtain ⟨hnames, hlisted⟩ := (AskedFrom.of_ofPath hd).list
    refine ⟨d, rfl, ?_⟩
    rw [hnames] at h
    split at h
    · cases h
    · next count hcheck => exact parses_of_checkCollections hlisted hcheck
    · cases h

/-! ## 2. Generating -/

open WildcardDirectory in
/-- **A check that passes covers generating.** If there is a directory and its check passes, then
as long as the files stay as they are and whatever is asked of the directory in between, all that
it has for any name can be read, for whatever it is read: the name may be listed or not, a pattern
or not, and take detours. So no call for prompts in the same grammar that uses the directory fails
at a value of a wildcard, neither a single call nor one of a generator that goes on. -/
theorem wildcardsStep_covers_generate {path : Text} {declaration : GrammarDeclaration}
    {required : Bool} (hload : Grammar.load declaration = .ok g) (hexists : files.has path = true)
    (h : (wildcardsStep files path declaration required).success = true) :
    ∃ d, ofPath files path = .ok d ∧ ∀ calls : List DirectoryEvent, (∀ call ∈ calls, call.IsCall) →
      let now := (calls.foldl Watched.after ⟨files, d⟩).directory
      (∀ name values, (now.resolve files name).1 = .ok values →
        ∀ value ∈ values, ∀ origin, ∃ tree, g.parse origin value = .ok tree) ∧
      ∀ declared, Grammar.load declared = .ok g →
        (∀ env subject method count s fault,
          (now.generate files declared env subject method count s).1 ≠
            .error (.walk (.candidate fault))) ∧
        ∀ generator, generator.declaration = declared → ∀ env subject count method fault,
          (now.goOn files generator env subject count method).1 ≠
            .error (.walk (.candidate fault)) := by
  obtain ⟨d, hd, hchecked⟩ := parses_of_wildcardsStep hload hexists h
  refine ⟨d, hd, fun calls hcalls => ?_⟩
  intro now
  -- whatever was asked before, the directory answers as it did when it was opened
  have hasked : AskedFrom files d now := (AskedFrom.of_ofPath hd).foldl hcalls
  have hread : ∀ name values, (now.resolve files name).1 = .ok values →
      ∀ value ∈ values, ∀ origin, ∃ tree, g.parse origin value = .ok tree := by
    intro name values hvalues value hvalue origin
    have hstanding : standing files d name = .ok values :=
      (hasked.resolve name).1.symm.trans hvalues
    -- the name may be spelled as no listed name is, but its values are those of a listed one
    obtain ⟨listed, hlisted, hcovers⟩ := exists_listed_of_standing hstanding hvalue
    obtain ⟨others, hothers, hparses⟩ := hchecked listed hlisted
    obtain ⟨tree, htree⟩ := hparses value (hcovers others hothers)
    -- the check read the value with one number and the walk reads it with another: both end alike
    have hsame := Template.parse_agree (Grammar.opens_of_load hload) (.template 0) origin value
    rw [htree] at hsame
    generalize g.parse origin value = result at hsame ⊢
    cases hsame with
    | tree => exact ⟨_, rfl⟩
  refine ⟨hread, fun declared hdeclared => ?_⟩
  have hvalues : ∀ (env : Environment) g', Grammar.load declared = .ok g' →
      { now.environment files env with grammar := g' }.ValuesParse := by
    intro env g' hload'
    obtain rfl : g = g' := Except.ok.inj (hdeclared.symm.trans hload')
    exact hread
  refine ⟨fun env subject method count s fault => ?_, ?_⟩
  · exact generate_ne_candidate (hvalues env) subject method count s fault
  · rintro generator rfl env subject count method fault
    exact generator.generate_ne_candidate (hvalues env) subject count method fault

/-- A directory whose one collection has a star in its name. -/
def starredFiles : FileTree :=
  ⟨[([units "w"], .directory), ([units "w", units "a*.txt"],
    .file (Utf8.encode (units "\x7bcat|dog\x7d\n")))], []⟩

/-- Its animals are found by another pattern, and can be read. -/
theorem wildcardsStep_covers_generate_of_star :
    Grammar.load .absent = .ok .standard ∧ starredFiles.has (units "/w") = true ∧
      (wildcardsStep starredFiles (units "/w") .absent true).success = true ∧
      ∃ tree, Grammar.standard.parse (.built 0) (units "\x7bcat|dog\x7d") = .ok tree := by
  have hload : Grammar.load .absent = .ok .standard := rfl
  have hexists : starredFiles.has (units "/w") = true := rfl
  have hpasses : (wildcardsStep starredFiles (units "/w") .absent true).success = true := by
    decide +kernel
  obtain ⟨d, hd, hcovers⟩ := wildcardsStep_covers_generate hload hexists hpasses
  obtain rfl : ⟨[units "w"], [], none⟩ = d := Except.ok.inj hd
  obtain ⟨hread, -⟩ := hcovers [] (List.forall_mem_nil _)
  have hanimals : (WildcardDirectory.resolve starredFiles (units "**") ⟨[units "w"], [], none⟩).1 =
      .ok [units "\x7bcat|dog\x7d"] := by decide +kernel
  exact ⟨hload, hexists, hpasses, hread _ _ hanimals _ List.mem_cons_self _⟩

end PromptTemplate
