/-
`Unions.lean` -- the values of all names that a pattern matches, as one list.

A pattern resolves to a union that repeats nothing. Each value has a first name, the least of the
matching names that have it, and the union has its values in the order of their first names, those
of one first name as they first stand there (`Glob.Precedes`). No two values precede each other,
so this order and the members pin the list down: it depends on which names there are, not on how
they are listed, and given collections answer the same in whatever order they were given.
-/
import Mathlib.Data.List.Basic
import PromptTemplate.Proofs.Text.Order
import PromptTemplate.Wildcard.Collections

set_option autoImplicit false

namespace PromptTemplate

/-! ## 1. First places -/

namespace Text

/-- Leaving members out changes no order among the first places of those that stay. -/
theorem idxOf_lt_of_filter {p : Text → Bool} {ts : List Text} {s t : Text} (hs : p s = true)
    (ht : p t = true) (h : (ts.filter p).idxOf s < (ts.filter p).idxOf t) :
    ts.idxOf s < ts.idxOf t := by
  induction ts with
  | nil => exact h
  | cons other ts ih =>
    -- what is filtered out stands before both or behind both, or between them
    by_cases hother : p other = true
    · rw [List.filter_cons_of_pos hother] at h
      by_cases hsame : other = t
      · rw [List.idxOf_cons_eq _ hsame] at h
        exact absurd h (Nat.not_lt_zero _)
      · rw [List.idxOf_cons_ne _ hsame] at h ⊢
        by_cases hfirst : other = s
        · rw [List.idxOf_cons_eq _ hfirst]
          exact Nat.succ_pos _
        · rw [List.idxOf_cons_ne _ hfirst] at h ⊢
          exact Nat.succ_lt_succ (ih (Nat.lt_of_succ_lt_succ h))
    · have hne {kept : Text} (hkept : p kept = true) : other ≠ kept :=
        fun heq => hother (heq ▸ hkept)
      rw [List.filter_cons_of_neg hother] at h
      rw [List.idxOf_cons_ne _ (hne hs), List.idxOf_cons_ne _ (hne ht)]
      exact Nat.succ_lt_succ (ih h)

/-- What repetitions are taken out of keeps its members in the order of their first places. The
induction is on the length, because each member takes its repetitions behind it away. -/
theorem pairwise_eraseDups (ts : List Text) :
    ts.eraseDups.Pairwise fun s t => ts.idxOf s < ts.idxOf t := by
  -- on the length, since what is left to erase is a filtered list and no tail
  induction hlength : ts.length using Nat.strongRecOn generalizing ts with
  | _ length ih =>
    cases ts with
    | nil => exact List.Pairwise.nil
    | cons first ts =>
      have hshorter := List.length_filter_le (fun other => !other == first) ts
      have hne {other : Text} (hother : other ∈ (ts.filter fun other =>
          !other == first).eraseDups) :
          first ≠ other := by
        rw [List.mem_eraseDups, List.mem_filter] at hother
        rintro rfl
        simp at hother
      rw [List.eraseDups_cons, List.pairwise_cons]
      refine ⟨fun other hother => ?_, ?_⟩
      · rw [List.idxOf_cons_self, List.idxOf_cons_ne _ (hne hother)]
        exact Nat.succ_pos _
      · have hrest :=
          ih _ (by rw [← hlength, List.length_cons]; omega) (ts.filter fun other =>
          !other == first) rfl
        refine hrest.imp_of_mem fun {s t} hs ht hlt => ?_
        rw [List.idxOf_cons_ne _ (hne hs), List.idxOf_cons_ne _ (hne ht)]
        refine Nat.succ_lt_succ (idxOf_lt_of_filter ?_ ?_ hlt)
        · simpa using (hne hs).symm
        · simpa using (hne ht).symm

end Text

namespace Glob

/-! ## 2. The order of a union -/

/-- The least of the matched names that have a value. -/
structure FirstName (matched : List Text) (values : Text → List Text) (value name : Text) :
    Prop where
  mem : name ∈ matched
  has : value ∈ values name
  least : ∀ other ∈ matched, value ∈ values other → Text.le name other = true

/-- The first name of a value is smaller than that of the other one, or both have the same, and
there the value has the smaller first place. -/
def Precedes (matched : List Text) (values : Text → List Text) (value other : Text) : Prop :=
  ∃ name next, FirstName matched values value name ∧ FirstName matched values other next ∧
    (name ≠ next ∧ Text.le name next = true ∨
      name = next ∧ (values name).idxOf value < (values name).idxOf other)

section Order

variable {matched others : List Text} {values : Text → List Text} {value other name next : Text}

theorem FirstName.unique (h : FirstName matched values value name)
    (h' : FirstName matched values value next) :
    name = next :=
  Text.le_antisymm (h.least next h'.mem h'.has) (h'.least name h.mem h.has)

/-- How the names are listed, and how often, does not matter. -/
theorem FirstName.congr (hsame : ∀ name, name ∈ matched ↔ name ∈ others)
    (h : FirstName matched values value name) : FirstName others values value name where
  mem := (hsame name).1 h.mem
  has := h.has
  least other hother := h.least other ((hsame other).2 hother)

theorem Precedes.congr (hsame : ∀ name, name ∈ matched ↔ name ∈ others)
    (h : Precedes matched values value other) :
    Precedes others values value other := by
  obtain ⟨name, next, hname, hnext, horder⟩ := h
  exact ⟨name, next, hname.congr hsame, hnext.congr hsame, horder⟩

theorem Precedes.asymm (h : Precedes matched values value other) :
    ¬Precedes matched values other value := by
  obtain ⟨name, next, hname, hnext, horder⟩ := h
  rintro ⟨next', name', hnext', hname', horder'⟩
  obtain rfl := hname.unique hname'
  obtain rfl := hnext.unique hnext'
  rcases horder with ⟨hne, hle⟩ | ⟨rfl, hlt⟩
  · rcases horder' with ⟨-, hle'⟩ | ⟨heq, -⟩
    · exact hne (Text.le_antisymm hle hle')
    · exact hne heq.symm
  · rcases horder' with ⟨hne, -⟩ | ⟨-, hlt'⟩
    · exact hne rfl
    · exact Nat.lt_asymm hlt hlt'

/-- A name that is above none of the others is the first one of all its values. -/
theorem FirstName.head (hleast : ∀ other ∈ matched, Text.le name other = true)
    (hhas : value ∈ values name) :
    FirstName (name :: matched) values value name where
  mem := List.mem_cons_self
  has := hhas
  least other hother _ := by
    rcases List.mem_cons.1 hother with rfl | hother
    · exact Text.le_refl _
    · exact hleast other hother

/-- A name that does not have the value changes nothing. -/
theorem FirstName.cons (hnot : value ∉ values name) (h : FirstName matched values value next) :
    FirstName (name :: matched) values value next where
  mem := List.mem_cons_of_mem _ h.mem
  has := h.has
  least other hother hhas := by
    rcases List.mem_cons.1 hother with rfl | hother
    · exact absurd hhas hnot
    · exact h.least other hother hhas

/-- Every value of the names has a first name. -/
theorem exists_firstName (hsorted : matched.Pairwise fun s t => Text.le s t = true)
    (hmem : value ∈ matched.flatMap values) : ∃ name, FirstName matched values value name := by
  induction matched with
  | nil => cases hmem
  | cons name matched ih =>
    obtain ⟨hleast, hrest⟩ := List.pairwise_cons.1 hsorted
    by_cases hhas : value ∈ values name
    · exact ⟨name, .head hleast hhas⟩
    · rw [List.flatMap_cons, List.mem_append] at hmem
      obtain ⟨next, hnext⟩ := ih hrest (hmem.resolve_left hhas)
      exact ⟨next, hnext.cons hhas⟩

/-- Where the names are ascending, the values one name after another have their first places in the
order of a union. -/
theorem precedes_of_idxOf_lt (hsorted : matched.Pairwise fun s t => Text.le s t = true)
    (hother : other ∈ matched.flatMap values)
    (hlt : (matched.flatMap values).idxOf value < (matched.flatMap values).idxOf other) :
    Precedes matched values value other := by
  induction matched with
  | nil => cases hother
  | cons name matched ih =>
    obtain ⟨hleast, hrest⟩ := List.pairwise_cons.1 hsorted
    rw [List.flatMap_cons, List.mem_append] at hother
    rw [List.flatMap_cons, List.idxOf_append, List.idxOf_append] at hlt
    -- the value is in the first collection or not, and so is the other one
    by_cases hvalue : value ∈ values name
    · by_cases hhas : other ∈ values name
      · rw [if_pos hvalue, if_pos hhas] at hlt
        exact ⟨name, name, .head hleast hvalue, .head hleast hhas, .inr ⟨rfl, hlt⟩⟩
      · obtain ⟨next, hnext⟩ := exists_firstName hrest (hother.resolve_left hhas)
        refine ⟨name, next, .head hleast hvalue, hnext.cons hhas, .inl ⟨?_, hleast next hnext.mem⟩⟩
        rintro rfl
        exact hhas hnext.has
    · have hhas : other ∉ values name := by
        intro hhas
        rw [if_neg hvalue, if_pos hhas] at hlt
        have := List.idxOf_lt_length_of_mem hhas
        omega
      rw [if_neg hvalue, if_neg hhas] at hlt
      obtain ⟨first, next, hfirst, hnext, horder⟩ := ih hrest (hother.resolve_left hhas) (by omega)
      exact ⟨first, next, hfirst.cons hvalue, hnext.cons hhas, horder⟩

end Order

/-! ## 3. Unions -/

section Union

variable (pattern : Text) (names : List Text) (values : Text → List Text)

theorem mem_matching {name : Text} :
    name ∈ matching pattern names ↔ name ∈ names.filter (accepts (read pattern)) := by
  rw [matching, Text.mem_sort]

theorem mem_resolve {value : Text} : value ∈ resolve pattern names values ↔
    ∃ name ∈ names, accepts (read pattern) name = true ∧ value ∈ values name := by
  simp only [resolve, List.mem_eraseDups, List.mem_flatMap, mem_matching,
    List.mem_filter, and_assoc]

theorem pairwise_resolve :
    (resolve pattern names values).Pairwise (Precedes (names.filter (accepts (read pattern)))
      values) := by
  refine (Text.pairwise_eraseDups _).imp_of_mem fun {value other} _ hother hlt => ?_
  have horder := precedes_of_idxOf_lt (Text.pairwise_sort _) (List.mem_eraseDups.1 hother) hlt
  exact horder.congr fun name => mem_matching pattern names

/-- The names may be listed in any order, and any number of times. -/
theorem resolve_congr {others : List Text} (hsame : ∀ name, name ∈ others ↔ name ∈ names) :
    resolve pattern others values = resolve pattern names values := by
  have hfilter (name : Text) :
      name ∈ others.filter (accepts (read pattern)) ↔
        name ∈ names.filter (accepts (read pattern)) := by
    rw [List.mem_filter, List.mem_filter, hsame]
  have hpairwise := (pairwise_resolve pattern others values).imp fun h => h.congr hfilter
  refine List.Perm.eq_of_pairwise (fun _ _ _ _ h h' => absurd h' h.asymm) hpairwise
    (pairwise_resolve pattern names values) ?_
  refine (List.perm_ext_iff_of_nodup (Text.nodup_eraseDups _) (Text.nodup_eraseDups _)).2
    fun value => ?_
  rw [← resolve, ← resolve, mem_resolve, mem_resolve]
  exact exists_congr fun name => and_congr_left fun _ => hsame name

end Union

end Glob

/-! ## 4. Given collections -/

namespace Collections

variable {c d : Collections} (hnames : (c.entries.map (·.1)).Nodup)
  (hperm : c.entries.Perm d.entries)
include hnames hperm

theorem values_of_perm : c.values = d.values := by
  funext name
  rw [values, values, Text.lookup_eq_of_perm hnames hperm]

theorem resolve_of_perm (name : Text) : c.resolve name = d.resolve name := by
  have hsame (other : Text) : other ∈ c.entries.map (·.1) ↔ other ∈ d.entries.map (·.1) :=
    (hperm.map _).mem_iff
  rw [resolve, resolve, values_of_perm hnames hperm, Glob.resolve_congr name _ d.values hsame]

end Collections

/-- **A pattern resolves to one canonical union.** It repeats nothing, its members are the values of
the names that the pattern matches, and they stand in the order of the first matching name that has
them and then of their first place there. So the names can be permuted and repeated, and collections
in which no name occurs twice answer the same in whatever order they are given. -/
theorem Glob.resolve_canonical (pattern : Text) (names : List Text) (values : Text → List Text) :
    (resolve pattern names values).Nodup ∧
    (∀ value, value ∈ resolve pattern names values ↔
      ∃ name ∈ names, accepts (read pattern) name = true ∧ value ∈ values name) ∧
    (resolve pattern names values).Pairwise
      (Precedes (names.filter (accepts (read pattern))) values) ∧
    (∀ others : List Text, (∀ name, name ∈ others ↔ name ∈ names) →
      resolve pattern others values = resolve pattern names values) ∧
    ∀ c d : Collections, (c.entries.map (·.1)).Nodup → c.entries.Perm d.entries →
      c.resolve pattern = d.resolve pattern :=
  ⟨Text.nodup_eraseDups _, fun _ => mem_resolve pattern names values,
    pairwise_resolve pattern names values,
    fun _ => resolve_congr pattern names values,
    fun _ _ hnames hperm => Collections.resolve_of_perm hnames hperm pattern⟩

/-- Palettes that share a colour, and one collection of another kind. -/
def Collections.palettes : Collections :=
  ⟨[(units "palettes/warm", [units "red", units "grey", units "red"]),
    (units "shapes", [units "disc"]),
    (units "palettes/cool", [units "grey", units "blue"])]⟩

/-- The shared colour stands where the cool palette has it, though that one was given last; and so
it does when the names come backwards and then once more, and when the collections are given
backwards. -/
theorem Glob.resolve_canonical_of_palettes :
    let names := Collections.palettes.entries.map (·.1)
    let backwards : Collections := ⟨Collections.palettes.entries.reverse⟩
    (∀ name, name ∈ names.reverse ++ names ↔ name ∈ names) ∧ names.Nodup ∧
      Collections.palettes.entries.Perm backwards.entries ∧
      resolve (units "palettes/*") (names.reverse ++ names) Collections.palettes.values =
        [units "grey", units "blue", units "red"] ∧
      Collections.palettes.resolve (units "palettes/*") =
        backwards.resolve (units "palettes/*") := by
  intro names backwards
  obtain ⟨-, -, -, hnames, hcollections⟩ :=
    resolve_canonical (units "palettes/*") names Collections.palettes.values
  have hsame (name : Text) : name ∈ names.reverse ++ names ↔ name ∈ names := by
    rw [List.mem_append, List.mem_reverse, or_self]
  have hnodup : names.Nodup := by decide
  have hperm : Collections.palettes.entries.Perm backwards.entries := (List.reverse_perm _).symm
  -- two names match, and sorting puts them in order
  have hmatching : matching (units "palettes/*") names =
      [units "palettes/cool", units "palettes/warm"] := by
    have hfilter : names.filter (accepts (read (units "palettes/*"))) =
        [units "palettes/warm", units "palettes/cool"] := by decide
    rw [matching, hfilter, Text.sort_eq_of_perm (List.Perm.swap _ _ [])]
    exact List.mergeSort_of_pairwise (by decide)
  refine ⟨hsame, hnodup, hperm, ?_, hcollections _ _ hnodup hperm⟩
  rw [hnames _ hsame, resolve, hmatching]
  decide

end PromptTemplate
