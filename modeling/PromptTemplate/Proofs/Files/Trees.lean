/-
`Trees.lean` -- trees of files that name every path once.

In a proper tree no path is named twice and every path goes along plain names, so what is at a
path is what one entry says, and the files below a directory are told apart by their names. Trees
are proper from the empty one on: writing a file keeps them so, and so every tree that is made of
files that are written is proper.
-/
import PromptTemplate.Files.Tree
import PromptTemplate.Proofs.Files.Paths
import PromptTemplate.Proofs.Text.Order

set_option autoImplicit false

namespace PromptTemplate

namespace FileTree

/-- The paths of what is in a tree. -/
def paths (tree : FileTree) : List Path := tree.entries.map Prod.fst

/-- Every path is named once, lies below the root and goes along plain names. -/
structure Proper (tree : FileTree) : Prop where
  nodup : tree.paths.Nodup
  ne_root : ∀ path ∈ tree.paths, path ≠ []
  plain : ∀ path ∈ tree.paths, ∀ name ∈ path, Path.Plain name
  current : ∀ name ∈ tree.current, Path.Plain name

instance (tree : FileTree) : Decidable tree.Proper :=
  decidable_of_iff (tree.paths.Nodup ∧ (∀ path ∈ tree.paths, path ≠ []) ∧
      (∀ path ∈ tree.paths, ∀ name ∈ path, Path.Plain name) ∧ ∀ name ∈ tree.current,
      Path.Plain name)
    ⟨fun ⟨hnodup, hroot, hplain, hcurrent⟩ => ⟨hnodup, hroot, hplain, hcurrent⟩,
      fun h => ⟨h.nodup, h.ne_root, h.plain, h.current⟩⟩

variable {tree : FileTree} {path base names : Path} {bytes : Bytes}

/-! ## 1. Files and where they are -/

/-- A file is at a path if an entry says so. -/
theorem Proper.at?_eq_file_iff (h : tree.Proper) :
    tree.at? path = some (.file bytes) ↔ (path, Entry.file bytes) ∈ tree.entries := by
  -- the root answers as a directory without an entry; every other path is looked up
  constructor
  · intro hfile
    rw [at?] at hfile
    split at hfile
    · cases hfile
    · obtain ⟨before, behind, hentries, -⟩ := List.lookup_eq_some_iff.1 hfile
      rw [hentries]
      exact List.mem_append_right _ List.mem_cons_self
  · intro hmem
    have hroot : ¬path.isEmpty = true := fun hempty =>
      h.ne_root _ (List.mem_map_of_mem hmem) (List.isEmpty_iff.1 hempty)
    rw [at?, if_neg hroot]
    exact Text.lookup_of_mem h.nodup hmem

/-- The files below a directory are those at the paths that go on from it. -/
theorem Proper.mem_filesBelow (h : tree.Proper) :
    names ∈ tree.filesBelow base ↔ ∃ bytes, tree.at? (base ++ names) = some (.file bytes) := by
  rw [filesBelow, List.mem_filterMap]
  constructor
  · rintro ⟨⟨path, entry⟩, hmem, hnames⟩
    -- directories are left out, and so are files that are not below the base
    cases entry with
    | directory => cases hnames
    | file bytes =>
      dsimp only at hnames
      split at hnames
      · next hbelow =>
        obtain ⟨rest, rfl⟩ := List.isPrefixOf_iff_prefix.1 hbelow
        rw [List.drop_left, Option.some_inj] at hnames
        subst hnames
        exact ⟨bytes, h.at?_eq_file_iff.2 hmem⟩
      · cases hnames
  · rintro ⟨bytes, hfile⟩
    refine ⟨_, h.at?_eq_file_iff.1 hfile, ?_⟩
    dsimp only
    rw [if_pos (List.isPrefixOf_iff_prefix.2 (List.prefix_append base names)), List.drop_left]

theorem Proper.plain_of_at? (h : tree.Proper) (hfile : tree.at? path = some (.file bytes)) :
    ∀ name ∈ path, Path.Plain name :=
  h.plain _ (List.mem_map_of_mem (h.at?_eq_file_iff.1 hfile))

/-- No file is below a directory twice. -/
theorem Proper.nodup_filesBelow (h : tree.Proper) (base : Path) : (tree.filesBelow base).Nodup := by
  rw [filesBelow, List.Nodup, List.pairwise_filterMap]
  refine (List.pairwise_map.1 h.nodup).imp
    fun {first second} hne names hfirst names' hsecond hsame => hne ?_
  obtain ⟨path, entry⟩ := first
  obtain ⟨path', entry'⟩ := second
  -- two files with the same names below the base have the same path
  cases entry with
  | directory => cases hfirst
  | file bytes =>
    cases entry' with
    | directory => cases hsecond
    | file bytes' =>
      dsimp only at hfirst hsecond
      split at hfirst
      · next hbelow =>
        split at hsecond
        · next hbelow' =>
          obtain ⟨rest, rfl⟩ := List.isPrefixOf_iff_prefix.1 hbelow
          obtain ⟨rest', rfl⟩ := List.isPrefixOf_iff_prefix.1 hbelow'
          rw [List.drop_left, Option.some_inj] at hfirst hsecond
          rw [hfirst, hsecond, hsame]
        · cases hsecond
      · cases hfirst

/-! ## 2. Changes -/

theorem paths_set (tree : FileTree) (path : Path) (entry : Entry) :
    (tree.set path entry).paths = if path ∈ tree.paths then tree.paths else tree.paths ++
      [path] := by
  have hnamed : tree.entries.any (fun e => e.1 = path) = true ↔ path ∈ tree.paths := by
    rw [paths, List.mem_map, List.any_eq_true]
    simp only [decide_eq_true_eq]
  rw [set]
  by_cases h : path ∈ tree.paths
  · -- the entry of the path changes where it stands
    rw [if_pos (hnamed.2 h), if_pos h, paths, List.map_map]
    refine List.map_congr_left fun e _ => ?_
    dsimp only [Function.comp_apply]
    split
    · next heq => exact heq.symm
    · rfl
  · rw [if_neg (mt hnamed.1 h), if_neg h, paths, List.map_append]
    rfl

theorem proper_empty {current : Path} (h : ∀ name ∈ current, Path.Plain name) :
    (empty current).Proper := by
  have hpaths : (empty current).paths = (List.range current.length).map fun count =>
      current.take (count + 1) := by
    rw [empty, paths, List.map_map]
    rfl
  refine ⟨?_, ?_, ?_, h⟩
  all_goals rw [hpaths]
  · rw [List.Nodup, List.pairwise_map]
    refine List.pairwise_lt_range.imp_of_mem fun {i j} hi hj hlt hsame => ?_
    have hlength := congrArg List.length hsame
    rw [List.length_take, List.length_take] at hlength
    have hshort := List.mem_range.1 hj
    omega
  · intro path hpath
    obtain ⟨count, hcount, rfl⟩ := List.mem_map.1 hpath
    have hshort := List.mem_range.1 hcount
    exact List.ne_nil_of_length_pos (by rw [List.length_take]; omega)
  · intro path hpath
    obtain ⟨count, -, rfl⟩ := List.mem_map.1 hpath
    exact fun name hname => h name (List.mem_of_mem_take hname)

theorem Proper.set (h : tree.Proper) (hne : path ≠ []) (hplain : ∀ name ∈ path, Path.Plain name)
    (entry : Entry) : (tree.set path entry).Proper := by
  have hcurrent : (tree.set path entry).current = tree.current := by
    rw [FileTree.set]
    split
    · rfl
    · rfl
  refine ⟨?_, ?_, ?_, hcurrent ▸ h.current⟩
  -- either the path had an entry, and the paths are as before, or it is new and stands last
  all_goals
    rw [paths_set]
    split
  · exact h.nodup
  · next hnew =>
    refine List.nodup_append.2 ⟨h.nodup, List.pairwise_singleton _ _, ?_⟩
    rintro other hother _ hpath rfl
    exact hnew (List.mem_singleton.1 hpath ▸ hother)
  · exact h.ne_root
  · exact List.forall_mem_append.2 ⟨h.ne_root, List.forall_mem_singleton.2 hne⟩
  · exact h.plain
  · exact List.forall_mem_append.2 ⟨h.plain, List.forall_mem_singleton.2 hplain⟩

theorem Proper.ensureDirectory (h : tree.Proper) (hplain : ∀ name ∈ path, Path.Plain name) :
    (tree.ensureDirectory path).Proper := by
  rw [FileTree.ensureDirectory]
  split
  · next hnone =>
    refine h.set ?_ hplain _
    rintro rfl
    cases hnone
  · exact h

theorem Proper.makeAlong (names : List Text) {after : FileTree} (h : tree.Proper)
    (hplain : ∀ name ∈ path, Path.Plain name) (hnames : ∀ name ∈ names, Path.slash ∉ name)
    (hafter : tree.makeAlong path names = .ok after) : after.Proper := by
  induction names generalizing tree path with
  | nil =>
    rw [FileTree.makeAlong] at hafter
    split at hafter
    · cases hafter
    · cases hafter
      exact h.ensureDirectory hplain
  | cons name names ih =>
    obtain ⟨hname, hnames⟩ := List.forall_mem_cons.1 hnames
    rw [FileTree.makeAlong] at hafter
    split at hafter
    · cases hafter
    · refine ih (h.ensureDirectory hplain) ?_ hnames hafter
      exact Path.plain_foldl_follow (List.forall_mem_singleton.2 hname) hplain

/-- Written paths lead along plain names. -/
theorem Proper.plain_resolve (h : tree.Proper) (written : Text) :
    ∀ name ∈ tree.resolve written, Path.Plain name := by
  refine Path.plain_foldl_follow (fun _ => Text.not_mem_of_mem_splitAt) ?_
  split
  · exact fun _ hname => absurd hname List.not_mem_nil
  · exact h.current

/-- Writing a file keeps a tree proper. -/
theorem Proper.write {after : FileTree} (h : tree.Proper) {written : Text}
    (hafter : tree.write written bytes = .ok after) : after.Proper := by
  rw [FileTree.write] at hafter
  split at hafter
  · cases hafter
  -- the directories on the way are made first, and the file is put where it then belongs
  · next made hmade =>
    have hproper : made.Proper := by
      rw [makeDirectories] at hmade
      split at hmade
      · cases hmade
      · refine Proper.makeAlong _ h ?_ (fun _ => Text.not_mem_of_mem_splitAt) hmade
        rw [startOf]
        split
        · exact fun _ hname => absurd hname List.not_mem_nil
        · exact h.current
    split at hafter
    · cases hafter
    · next hdirectory =>
      cases hafter
      refine hproper.set ?_ (h.plain_resolve written) _
      intro hroot
      rw [hroot] at hdirectory
      exact hdirectory rfl

/-- So do any number of files that are written one after another. -/
theorem Proper.foldlM_write {files : List (Text × Bytes)} {after : FileTree} (h : tree.Proper)
    (hafter : files.foldlM (fun tree file => tree.write file.1 file.2) tree = .ok after) :
    after.Proper := by
  induction files generalizing tree with
  | nil =>
    cases hafter
    exact h
  | cons file files ih =>
    rw [List.foldlM_cons] at hafter
    cases hwrite : tree.write file.1 file.2 with
    | error fault =>
      rw [hwrite] at hafter
      cases hafter
    | ok next =>
      rw [hwrite] at hafter
      exact ih (h.write hwrite) hafter

/-- What is written from nothing is proper. -/
theorem proper_of_written (files : List (Text × Bytes)) {after : FileTree}
    (hafter : files.foldlM (fun tree file => tree.write file.1 file.2) (empty []) = .ok after) :
    after.Proper :=
  (proper_empty fun _ hname => absurd hname List.not_mem_nil).foldlM_write hafter

end FileTree

end PromptTemplate
