/-
`Paths.lean` -- written paths and the names that they lead along.

Following a written path only ever adds names that are plain: not empty, no dots of their own,
and without a slash. So whatever a written path does on its way, the names by which it ends up
below a directory can be written down again, and lead there when they are followed from it.
-/
import Mathlib.Data.List.Basic
import PromptTemplate.Files.Path

set_option autoImplicit false

namespace PromptTemplate

/-! ## 1. Cutting and joining -/

namespace Text

variable {separator : CodeUnit} {t : Text}

theorem splitAt_ne_nil (separator : CodeUnit) (t : Text) : splitAt separator t ≠ [] := by
  cases t with
  | nil => exact List.cons_ne_nil _ _
  | cons u rest =>
    rw [splitAt]
    split
    · exact List.cons_ne_nil _ _
    · split
      · exact List.cons_ne_nil _ _
      · exact List.cons_ne_nil _ _

theorem splitAt_eq_splitOn (separator : CodeUnit) (t : Text) :
    splitAt separator t = t.splitOn separator := by
  induction t with
  | nil => rfl
  | cons u rest ih =>
    rw [List.splitOn_eq_splitOnP, List.splitOnP_cons_eq_if_modifyHead, ← List.splitOn_eq_splitOnP,
      ← ih, splitAt]
    by_cases hu : u = separator
    · simp [hu]
    · obtain ⟨piece, pieces, hpieces⟩ := List.exists_cons_of_ne_nil (splitAt_ne_nil separator rest)
      simp [hu, hpieces]

theorem join_eq_intercalate (separator : Text) (pieces : List Text) :
    join separator pieces = separator.intercalate pieces := by
  induction pieces with
  | nil => rfl
  | cons piece pieces ih =>
    cases pieces with
    | nil => exact List.intercalate_singleton.symm
    | cons second rest =>
      rw [List.intercalate_cons_cons, ← ih]
      rfl

theorem join_cons {pieces : List Text} (hne : pieces ≠ []) (separator piece : Text) :
    join separator (piece :: pieces) = piece ++ separator ++ join separator pieces := by
  obtain ⟨second, rest, rfl⟩ := List.exists_cons_of_ne_nil hne
  rfl

theorem mem_join {separator : Text} {pieces : List Text} {u : CodeUnit}
    (hu : u ∈ join separator pieces) :
    u ∈ separator ∨ ∃ piece ∈ pieces, u ∈ piece := by
  induction pieces with
  | nil => exact absurd hu List.not_mem_nil
  | cons piece pieces ih =>
    -- the separator stands between pieces only, so one piece alone is a case of its own
    cases pieces with
    | nil => exact .inr ⟨piece, List.mem_singleton_self _, hu⟩
    | cons second rest =>
      rw [join_cons (List.cons_ne_nil second rest)] at hu
      rcases List.mem_append.1 hu with hu | hu
      · rcases List.mem_append.1 hu with hu | hu
        · exact .inr ⟨piece, List.mem_cons_self, hu⟩
        · exact .inl hu
      · rcases ih hu with hu | ⟨other, hmem, hu⟩
        · exact .inl hu
        · exact .inr ⟨other, List.mem_cons_of_mem _ hmem, hu⟩

/-- Pieces without the unit are cut apart again where they were joined. -/
theorem splitAt_join {pieces : List Text} (hne : pieces ≠ [])
    (h : ∀ piece ∈ pieces, separator ∉ piece) :
    splitAt separator (join [separator] pieces) = pieces := by
  rw [splitAt_eq_splitOn, join_eq_intercalate, List.splitOn_intercalate separator h hne]

/-- No piece holds the unit at which a text is cut. -/
theorem not_mem_of_mem_splitAt {piece : Text} (h : piece ∈ splitAt separator t) :
    separator ∉ piece := by
  induction t generalizing piece with
  | nil =>
    rw [splitAt, List.mem_singleton] at h
    rw [h]
    exact List.not_mem_nil
  | cons u rest ih =>
    rw [splitAt] at h
    obtain ⟨first, pieces, hpieces⟩ := List.exists_cons_of_ne_nil (splitAt_ne_nil separator rest)
    rw [hpieces] at h ih
    -- at a separator a new piece begins; any other unit goes to the front of the piece behind it
    by_cases hu : u = separator
    · rw [if_pos hu] at h
      rcases List.mem_cons.1 h with rfl | h
      · exact List.not_mem_nil
      · exact ih h
    · rw [if_neg hu] at h
      rcases List.mem_cons.1 h with rfl | h
      · exact List.not_mem_cons_of_ne_of_not_mem (Ne.symm hu) (ih List.mem_cons_self)
      · exact ih (List.mem_cons_of_mem _ h)

/-- What is put behind a text and holds no separator goes to its last piece. -/
theorem splitAt_append {more : Text} (hmore : separator ∉ more) (t : Text) :
    ∃ front last, splitAt separator t = front ++ [last] ∧
      splitAt separator (t ++ more) = front ++ [last ++ more] := by
  induction t with
  | nil =>
    refine ⟨[], [], rfl, ?_⟩
    have hsingle := splitAt_join (List.cons_ne_nil more []) (List.forall_mem_singleton.2 hmore)
    exact hsingle
  | cons u rest ih =>
    obtain ⟨front, last, hrest, hmore'⟩ := ih
    rw [List.cons_append, splitAt, splitAt, hrest, hmore']
    -- only the last piece grows, whether the list of pieces before it is empty or not
    by_cases hu : u = separator
    · rw [if_pos hu, if_pos hu]
      exact ⟨[] :: front, last, rfl, rfl⟩
    · rw [if_neg hu, if_neg hu]
      cases front with
      | nil => exact ⟨[], u :: last, rfl, rfl⟩
      | cons first front => exact ⟨(u :: first) :: front, last, rfl, rfl⟩

/-- Joined behind others, a text that ends in some way ends them in this way. -/
theorem join_append (separator : Text) (front : List Text) (last more : Text) :
    join separator (front ++ [last ++ more]) = join separator (front ++ [last]) ++ more := by
  induction front with
  | nil => rfl
  | cons first front ih =>
    rw [List.cons_append, List.cons_append, join_cons (by simp), join_cons (by simp), ih,
      List.append_assoc, List.append_assoc, List.append_assoc]

end Text

/-! ## 2. Plain names -/

namespace Path

/-- A name that following takes as it is. -/
structure Plain (name : Text) : Prop where
  ne_nil : name ≠ []
  ne_here : name ≠ here
  ne_up : name ≠ up
  slash : slash ∉ name

instance (name : Text) : Decidable (Plain name) :=
  decidable_of_iff (name ≠ [] ∧ name ≠ here ∧ name ≠ up ∧ slash ∉ name)
    ⟨fun ⟨hnil, hhere, hup, hslash⟩ => ⟨hnil, hhere, hup, hslash⟩,
      fun h => ⟨h.ne_nil, h.ne_here, h.ne_up, h.slash⟩⟩

theorem follow_plain {name : Text} (h : Plain name) (path : Path) :
    path.follow name = path ++ [name] := by
  have hstays : ¬(name.isEmpty || name = here) = true := by
    simpa [h.ne_nil] using h.ne_here
  rw [follow, if_neg hstays, if_neg h.ne_up]

theorem foldl_follow_plain {names : List Text} (h : ∀ name ∈ names, Plain name) (path : Path) :
    names.foldl follow path = path ++ names := by
  induction names generalizing path with
  | nil => rw [List.foldl_nil, List.append_nil]
  | cons name names ih =>
    obtain ⟨hname, hnames⟩ := List.forall_mem_cons.1 h
    rw [List.foldl_cons, follow_plain hname, ih hnames, List.append_assoc, List.singleton_append]

/-- Beyond a depth at which there were none to begin with, all names are plain. -/
theorem plain_drop_foldl_follow {names : List Text} (h : ∀ name ∈ names, slash ∉ name) {path : Path}
    {depth : Nat} (hpath : ∀ name ∈ path.drop depth, Plain name) :
    ∀ name ∈ (names.foldl follow path).drop depth, Plain name := by
  induction names generalizing path with
  | nil => exact hpath
  | cons name names ih =>
    obtain ⟨hname, hnames⟩ := List.forall_mem_cons.1 h
    refine ih hnames ?_
    -- names that stay add nothing, a name that goes up takes one off, and
    -- any other is a plain name
    rw [follow]
    split
    · exact hpath
    · next hstays =>
      rw [Bool.or_eq_true, decide_eq_true_eq, not_or, List.isEmpty_iff] at hstays
      split
      · intro other hother
        rw [List.dropLast_eq_take, List.drop_take] at hother
        exact hpath other (List.mem_of_mem_take hother)
      · next hup =>
        intro other hother
        rw [List.drop_append] at hother
        rcases List.mem_append.1 hother with hother | hother
        · exact hpath other hother
        · rw [List.mem_singleton.1 (List.mem_of_mem_drop hother)]
          exact ⟨hstays.1, hstays.2, hup, hname⟩

/-- Following a written path from plain names ends in plain names. -/
theorem plain_foldl_follow {names : List Text} (h : ∀ name ∈ names, slash ∉ name) {path : Path}
    (hpath : ∀ name ∈ path, Plain name) : ∀ name ∈ names.foldl follow path, Plain name := by
  rw [← @List.drop_zero _ (names.foldl follow path)]
  exact plain_drop_foldl_follow h hpath

end Path

end PromptTemplate
