/-
`Listed.lean` -- every file that a name reaches is listed.

A name can lead to a file by detours, by the path from the root, or as a pattern that matches
others. The listing gives the same file a name of its own, made of the plain names that lead to it
from the directory, and that name leads there again. Such a name may hold stars, and is then read
as a pattern; but a pattern matches itself, so it resolves to its own values among others.
-/
import PromptTemplate.Proofs.Files.Paths
import PromptTemplate.Proofs.Wildcard.Snapshots

set_option autoImplicit false

namespace PromptTemplate

/-! ## 1. Patterns -/

namespace Glob

/-- A run takes units that are allowed, if the rest goes on as asked. -/
theorem run_append {allowed : CodeUnit → Bool} {next : Text → Bool} (taken : Text) {rest : Text}
    (htaken : ∀ u ∈ taken, allowed u = true) (hnext : next rest = true) :
    run allowed next (taken ++ rest) = true := by
  induction taken with
  | nil =>
    cases rest with
    | nil => exact hnext
    | cons u rest => rw [List.nil_append, run, hnext, Bool.true_or]
  | cons u taken ih =>
    obtain ⟨hu, htaken⟩ := List.forall_mem_cons.1 htaken
    rw [List.cons_append, run, hu, ih htaken, Bool.and_self, Bool.or_true]

/-- A pattern matches itself. -/
theorem accepts_read_self (name : Text) : accepts (read name) name = true := by
  fun_induction read name with
  | case1 => rfl
  | case2 => exact run_append [star] (List.forall_mem_singleton.2 rfl) rfl
  | case3 u hu => simp [accepts]
  | case4 u v rest hstars ih =>
    obtain ⟨rfl, rfl⟩ := hstars
    rw [accepts]
    exact run_append [star, star] (List.forall_mem_cons.2 ⟨rfl, List.forall_mem_singleton.2 rfl⟩) ih
  | case5 v rest hstars ih =>
    rw [accepts]
    exact run_append [star] (List.forall_mem_singleton.2 rfl) ih
  | case6 u v rest hstars hu ih => rw [accepts, ih, decide_eq_true rfl, Bool.and_self]

/-- Among the names, a pattern that is one of them is matched. -/
theorem mem_matching_self {name : Text} {names : List Text} (h : name ∈ names) :
    name ∈ matching name names :=
  Text.mem_sort.2 (List.mem_filter.2 ⟨h, accepts_read_self name⟩)

end Glob

/-! ## 2. Names of files -/

namespace WildcardDirectory

theorem endsWith_extension (name : Text) :
    Text.endsWith ((name ++ extension).map CodeUnit.toLower) extension = true := by
  have hlower : extension.map CodeUnit.toLower = extension := by decide
  rw [List.map_append, hlower, Text.endsWith, List.isSuffixOf_iff_suffix]
  exact List.suffix_append _ _

theorem dropEnd_append (t more : Text) : dropEnd more.length (t ++ more) = t := by
  rw [dropEnd, List.length_append, Nat.add_sub_cancel, List.take_left]

/-- The last name of the path of a collection ends in the extension. -/
theorem exists_last_resolve (base : Path) (name : Text) :
    ∃ front last, Path.resolve base (name ++ extension) = front ++ [last ++ extension] := by
  obtain ⟨front, last, -, hsplit⟩ := Text.splitAt_append (by decide : Path.slash ∉ extension) name
  have hplain : Path.Plain (last ++ extension) := by
    have hlength : 4 ≤ (last ++ extension).length := by
      rw [List.length_append]
      exact Nat.le_add_left _ _
    have hmem : last ++ extension ∈ Text.splitAt Path.slash (name ++ extension) := by simp [hsplit]
    -- the last name is too long to be empty or one of the dots
    refine ⟨?_, ?_, ?_, Text.not_mem_of_mem_splitAt hmem⟩
    all_goals
      intro heq
      rw [heq] at hlength
      revert hlength
      decide
  rw [Path.resolve, hsplit, List.foldl_append, List.foldl_cons, List.foldl_nil,
    Path.follow_plain hplain]
  exact ⟨_, last, rfl⟩

/-- Plain names written one after another are followed as they stand. -/
theorem resolve_join {names : List Text} (hne : names ≠ [])
    (hplain : ∀ name ∈ names, Path.Plain name) (base : Path) :
    Path.resolve base (Text.join [Path.slash] names) = base ++ names := by
  have hsplit : Text.splitAt Path.slash (Text.join [Path.slash] names) = names :=
    Text.splitAt_join hne fun name hmem => (hplain name hmem).slash
  have hstart : (Text.join [Path.slash] names).head? ≠ some Path.slash := by
    intro hhead
    obtain ⟨rest, hrest⟩ := List.head?_eq_some_iff.1 hhead
    -- the piece before a slash at the start is empty, which is no plain name
    rw [hrest, Text.splitAt, if_pos rfl] at hsplit
    exact (hplain [] (hsplit ▸ List.mem_cons_self)).ne_nil rfl
  rw [Path.resolve, hsplit, if_neg hstart, Path.foldl_follow_plain hplain]

/-- A path below the directory that a name leads to has a name of its own, which leads there. -/
theorem exists_nameOf_of_resolve {base : Path} {name : Text}
    (hbelow : base <+: Path.resolve base (name ++ extension))
    (hne : Path.resolve base (name ++ extension) ≠ base) :
    ∃ listed, nameOf? ((Path.resolve base (name ++ extension)).drop base.length) = some listed ∧
      Path.resolve base (listed ++ extension) = Path.resolve base (name ++ extension) := by
  have hplain : ∀ piece ∈ (Path.resolve base (name ++ extension)).drop base.length,
      Path.Plain piece := by
    refine Path.plain_drop_foldl_follow (fun _ => Text.not_mem_of_mem_splitAt) ?_
    split
    · simp
    · simp
  obtain ⟨front, last, hpath⟩ := exists_last_resolve base name
  obtain ⟨names, hnames⟩ := hbelow
  rw [← hnames, List.drop_left] at hplain ⊢
  rw [← hnames] at hne hpath
  have hsome : names ≠ [] := by
    rintro rfl
    exact hne (List.append_nil base)
  -- the last name is that of the path, so the extension can be put behind the whole
  obtain ⟨init, rfl⟩ : ∃ init, names = init ++ [last ++ extension] := by
    refine ⟨names.dropLast, ?_⟩
    have hlast : names.getLast hsome = last ++ extension := by
      have hwhole := congrArg List.getLast? hpath
      rwa [List.getLast?_append_of_ne_nil _ hsome, List.getLast?_concat,
        List.getLast?_eq_some_getLast hsome,
        Option.some_inj] at hwhole
    rw [← hlast, List.dropLast_append_getLast]
  have hwritten := Text.join_append [Path.slash] init last extension
  refine ⟨Text.join [Path.slash] (init ++ [last]), ?_, ?_⟩
  · rw [nameOf?, List.getLast?_concat]
    dsimp only
    rw [if_pos (endsWith_extension last), hwritten, dropEnd_append]
  · rw [← hwritten, resolve_join hsome hplain]

/-! ## 3. The listing -/

/-- Whatever leads to a file below the directory, the listing has a name for this file. -/
theorem exists_mem_listing {base : Path} {files : FileTree} {name : Text} {bytes : Bytes}
    (hfile : files.at? (Path.resolve base (name ++ extension)) = some (.file bytes))
    (hbelow : base <+: Path.resolve base (name ++ extension))
    (hne : Path.resolve base (name ++ extension) ≠ base) :
    ∃ listed ∈ listing base files,
      Path.resolve base (listed ++ extension) = Path.resolve base (name ++ extension) := by
  obtain ⟨listed, hname, hsame⟩ := exists_nameOf_of_resolve hbelow hne
  refine ⟨listed, Text.mem_sort.2 (List.mem_filterMap.2 ⟨_, ?_, hname⟩), hsame⟩
  have hentry : (Path.resolve base (name ++ extension), Entry.file bytes) ∈ files.entries := by
    rw [FileTree.at?] at hfile
    split at hfile
    · cases hfile
    · obtain ⟨before, behind, hentries, -⟩ := List.lookup_eq_some_iff.1 hfile
      rw [hentries]
      exact List.mem_append_right _ List.mem_cons_self
  refine List.mem_filterMap.2 ⟨_, hentry, ?_⟩
  dsimp only
  rw [if_pos (List.isPrefixOf_iff_prefix.2 hbelow)]

end WildcardDirectory

end PromptTemplate
