/-
`Steady.lean` -- a directory of wildcards whose files stay as they are.

While no file changes, the record of a directory holds nothing but these files, so a name
resolves to one and the same however often the directory was asked, listed and cleared
(`WildcardDirectory.standing`). And whatever a name resolves to, a listed name does too: each
value comes out of a file below the directory, the listing has a name for this file, and that
name resolves to the values of the file, or to them among others if it is a pattern.
-/
import PromptTemplate.Proofs.Results
import PromptTemplate.Proofs.Wildcard.Listed

set_option autoImplicit false

namespace PromptTemplate

/-! ## 1. Records of files that stay -/

/-- Something that is asked of the directory, and leaves the files alone. -/
def DirectoryEvent.IsCall : DirectoryEvent → Prop
  | .resolve _ | .list | .clear => True
  | .write _ _ | .remove _ => False

/-- Every load and the listing had the files that there are now. -/
structure Record.Steady (tree : FileTree) (past : Record) : Prop where
  files : past.files = tree
  loads : ∀ load ∈ past.loads, load.1 = tree
  scanned : past.scanned.getD past.files = tree

namespace Record.Steady

variable {read : FileTree → Text → Except LoadError (List Text)} {base : Path} {files : FileTree}
  {past : Record}

theorem fresh (files : FileTree) : Steady files ⟨files, [], none⟩ :=
  ⟨rfl, List.forall_mem_nil _, rfl⟩

theorem scanning (h : Steady files past) : Steady files past.scanning :=
  ⟨h.files, h.loads, h.scanned⟩

theorem loading (h : Steady files past) (names : List Text) :
    Steady files (past.loading names) where
  files := h.files
  loads load hmem := by
    rcases List.mem_append.1 hmem with hmem | hmem
    · exact h.loads load hmem
    · obtain ⟨name, -, rfl⟩ := List.mem_map.1 hmem
      exact h.files
  scanned := h.scanned

theorem after (h : Steady files past) {event : DirectoryEvent} (hcall : event.IsCall) :
    Steady files (past.after read base event) := by
  cases event with
  | write path bytes => exact hcall.elim
  | remove path => exact hcall.elim
  | resolve name =>
    rw [Record.after]
    split
    · exact h.scanning.loading _
    · exact h.loading _
  | list => exact h.scanning
  | clear => exact ⟨h.files, List.forall_mem_nil _, h.files⟩

/-- What is served is what the files have. -/
theorem snapshot (h : Steady files past) : past.snapshot read = read files := by
  funext name
  rw [Record.snapshot]
  -- what was served was read from the same files, since no event changed them
  cases hserved : past.served read name with
  | none => dsimp only; rw [h.files]
  | some values =>
    obtain ⟨load, hmem, hload⟩ := List.exists_of_findSome?_eq_some hserved
    rw [h.loads load hmem] at hload
    split at hload
    · dsimp only
      cases hread : read files name with
      | error error => rw [hread] at hload; cases hload
      | ok found => rw [hread] at hload; cases hload; rfl
    · cases hload

/-- So all that is answered is what would be answered for the first time. -/
theorem answer (h : Steady files past) (name : Text) :
    past.answer read base name = (⟨files, [], none⟩ : Record).answer read base name := by
  have hnames : past.names base = (⟨files, [], none⟩ : Record).names base :=
    congrArg (WildcardDirectory.listing base) h.scanned
  rw [Record.answer, Record.answer, h.snapshot, (fresh files).snapshot, hnames]

end Record.Steady

/-! ## 2. Directories of files that stay -/

namespace WildcardDirectory

/-- What a name resolves to as long as the files stay as they are. -/
def standing (files : FileTree) (d : WildcardDirectory) (name : Text) :
    Except LoadError (List Text) :=
  (⟨files, [], none⟩ : Record).answer (fun files name => fileValues files d name) d.base name

/-- A directory that came out of another one by asking, its files as they were. -/
def AskedFrom (files : FileTree) (fresh d : WildcardDirectory) : Prop :=
  ∃ past, Watched.Mirrors (fun files name => fileValues files fresh name) fresh.base
    ⟨files, d⟩ past ∧
    past.Steady files

namespace AskedFrom

variable {files : FileTree} {fresh d : WildcardDirectory}

theorem of_ofPath {path : Text} (hfresh : ofPath files path = .ok fresh) :
    AskedFrom files fresh fresh :=
  ⟨_, mirrors_ofPath hfresh fun _ _ => rfl, .fresh files⟩

theorem resolve (h : AskedFrom files fresh d) (name : Text) :
    (d.resolve files name).1 = standing files fresh name ∧
      AskedFrom files fresh (d.resolve files name).2 := by
  obtain ⟨past, hmirrors, hsteady⟩ := h
  obtain ⟨hanswer, hafter⟩ := hmirrors.resolve name
  exact ⟨hanswer.trans (hsteady.answer name), _, hafter, hsteady.after trivial⟩

theorem list (h : AskedFrom files fresh d) :
    (d.list files).1 = listing fresh.base files ∧ AskedFrom files fresh (d.list files).2 := by
  obtain ⟨past, hmirrors, hsteady⟩ := h
  obtain ⟨hnames, hafter⟩ := hmirrors.list
  exact ⟨hnames.trans (congrArg (listing fresh.base) hsteady.scanned), _, hafter, hsteady.scanning⟩

/-- Any calls, one after another. -/
theorem foldl (h : AskedFrom files fresh d) {calls : List DirectoryEvent}
    (hcalls : ∀ call ∈ calls, call.IsCall) :
    AskedFrom files fresh (calls.foldl Watched.after ⟨files, d⟩).directory := by
  obtain ⟨past, hmirrors, hsteady⟩ := h
  have hafter : (calls.foldl (Record.after (fun files name => fileValues files fresh name)
      fresh.base) past).Steady
      files := by
    -- the record goes through the same events, each of them a call
    clear hmirrors
    induction calls generalizing past with
    | nil => exact hsteady
    | cons call calls ih =>
      obtain ⟨hcall, hcalls⟩ := List.forall_mem_cons.1 hcalls
      exact ih hcalls _ (hsteady.after hcall)
  have hfinal := hmirrors.foldl calls
  have hfiles : (calls.foldl Watched.after ⟨files, d⟩).files = files :=
    hfinal.files.trans hafter.files
  revert hfinal hfiles
  generalize calls.foldl Watched.after ⟨files, d⟩ = now
  obtain ⟨files', d'⟩ := now
  rintro hfinal rfl
  exact ⟨_, hfinal, hafter⟩

end AskedFrom

/-! ## 3. Listed names cover all names -/

variable {files : FileTree} {d : WildcardDirectory} {name value : Text} {values : List Text}

/-- What a name resolves to comes out of files that are loaded. -/
theorem exists_load_of_standing (h : standing files d name = .ok values) (hvalue : value ∈ values) :
    ∃ other found, fileValues files d other = .ok found ∧ value ∈ found := by
  rw [standing, Record.answer, (Record.Steady.fresh files).snapshot] at h
  split at h
  · obtain ⟨lists, hlists, rfl⟩ := exists_of_map_ok h
    obtain ⟨found, hfound, hmem⟩ := List.mem_flatten.1 (List.mem_eraseDups.1 hvalue)
    obtain ⟨other, -, hload⟩ := (values_of_mapM hlists).2.1 found hfound
    exact ⟨other, found, hload, hmem⟩
  · exact ⟨name, values, h, hvalue⟩

/-- What is loaded for a listed name is in what this name resolves to. -/
theorem mem_standing_of_load {found : List Text} (hlisted : name ∈ listing d.base files)
    (hload : fileValues files d name = .ok found) (hvalue : value ∈ found)
    (h : standing files d name = .ok values) : value ∈ values := by
  rw [standing, Record.answer, (Record.Steady.fresh files).snapshot] at h
  split at h
  · obtain ⟨lists, hlists, rfl⟩ := exists_of_map_ok h
    obtain ⟨own, hown, hsame⟩ := (values_of_mapM hlists).2.2 name (Glob.mem_matching_self hlisted)
    obtain rfl : found = own := Except.ok.inj (hload.symm.trans hsame)
    exact List.mem_eraseDups.2 (List.mem_flatten.2 ⟨found, hown, hvalue⟩)
  · obtain rfl : found = values := Except.ok.inj (hload.symm.trans h)
    exact hvalue

/-- Values that are loaded are those of a file below the directory. -/
theorem exists_file_of_load (h : fileValues files d name = .ok values) (hvalue : value ∈ values) :
    ∃ bytes, files.at? (Path.resolve d.base (name ++ extension)) = some (.file bytes) ∧
      d.contains (Path.resolve d.base (name ++ extension)) = true := by
  rw [fileValues] at h
  split at h
  · next hbelow =>
    cases hfile : files.at? (Path.resolve d.base (name ++ extension)) with
    | none => rw [hfile] at h; cases h; cases hvalue
    | some entry =>
      rw [hfile] at h
      cases entry with
      | file bytes => exact ⟨bytes, rfl, hbelow⟩
      | directory => cases h
  · cases h
    cases hvalue

/-- **The listing covers the directory**: each value that any name resolves to is among those that
some listed name resolves to, whether that is a pattern or not, unless this name fails. -/
theorem exists_listed_of_standing (h : standing files d name = .ok values)
    (hvalue : value ∈ values) :
    ∃ listed ∈ listing d.base files, ∀ others, standing files d listed = .ok others →
      value ∈ others := by
  obtain ⟨other, found, hload, hfound⟩ := exists_load_of_standing h hvalue
  obtain ⟨bytes, hfile, hbelow⟩ := exists_file_of_load hload hfound
  rw [contains, Bool.and_eq_true, Bool.and_eq_true, List.isPrefixOf_iff_prefix,
    bne_iff_ne] at hbelow
  obtain ⟨listed, hlisted, hsame⟩ := exists_mem_listing hfile hbelow.1.2 hbelow.2
  have hown : fileValues files d listed = .ok found := by
    rw [fileValues, hsame]
    exact hload
  exact ⟨listed, hlisted, fun others hothers => mem_standing_of_load hlisted hown hfound hothers⟩

end WildcardDirectory

end PromptTemplate
