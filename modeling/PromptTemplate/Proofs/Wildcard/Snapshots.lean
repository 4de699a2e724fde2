/-
`Snapshots.lean` -- what a directory of wildcards answers while its files change.

A directory keeps the values of each name and the listing from the first time that they were
needed until it is cleared. So its answers are told by what happened since then: by the loads
of each name, each with the files of its moment, and by the files of the first listing
(`Record`). A load that fails is on the record like any other and serves nothing.

The directory mirrors its record (`Watched.Mirrors`): one event keeps that, so every history
does, and what the directory answers is what the record says.
-/
import PromptTemplate.Proofs.Text.Order
import PromptTemplate.Wildcard.Directory

set_option autoImplicit false

namespace PromptTemplate

/-! ## 1. Events -/

/-- What can happen to files, and to a directory of wildcards among them. -/
inductive DirectoryEvent
  | write (path : Text) (bytes : Bytes)
  | remove (path : Text)
  | resolve (name : Text)
  | list
  | clear

/-- The files after an event. A write that fails leaves them, and only a file is removed. -/
def FileTree.after (files : FileTree) : DirectoryEvent → FileTree
  | .write path bytes => (files.write path bytes).toOption.getD files
  | .remove path =>
    match files.at? (files.resolve path) with
    | some (.file _) => files.remove path
    | _ => files
  | _ => files

/-- Files, and a directory with what it keeps of them. -/
structure Watched where
  files : FileTree
  directory : WildcardDirectory

/-- Both after an event. -/
def Watched.after (w : Watched) (event : DirectoryEvent) : Watched where
  files := w.files.after event
  directory :=
    match event with
    | .resolve name => (w.directory.resolve w.files name).2
    | .list => (w.directory.list w.files).2
    | .clear => w.directory.clear
    | _ => w.directory

/-! ## 2. The record -/

namespace WildcardDirectory

/-- What the files have for a name: the cleaned lines of the file of this name below the
directory, nothing where there is none, and an error where there is a directory. -/
def contents (base : Path) (files : FileTree) (name : Text) : Except LoadError (List Text) :=
  let path := Path.resolve base (name ++ extension)
  if base <+: path ∧ path ≠ base then
    match files.at? path with
    | none => .ok []
    | some (.file bytes) => .ok (valuesOf (Utf8.decode bytes))
    | some .directory =>
      .error (.unreadable (Path.toText path) (FileFault.isDirectory.message .read))
  else .ok []

/-- The names of the collections that the files below a directory are, in ascending order. -/
def listing (base : Path) (files : FileTree) : List Text :=
  Text.sort ((files.filesBelow base).filterMap nameOf?)

end WildcardDirectory

/-- What was done since the directory was cleared: its loads in order, each with the files of its
moment, and the files of the first listing. -/
structure Record where
  files : FileTree
  loads : List (FileTree × Text)
  scanned : Option FileTree

namespace Record

variable (read : FileTree → Text → Except LoadError (List Text)) (base : Path) (past : Record)

/-- The values that the first load of a name gave that did not fail. -/
def served (name : Text) : Option (List Text) :=
  past.loads.findSome? fun load => if load.2 = name then (read load.1 name).toOption else none

/-- The values of a name: those that were served, or those that the files have now. -/
def snapshot (name : Text) : Except LoadError (List Text) :=
  match past.served read name with
  | some values => .ok values
  | none => read past.files name

/-- The names of all collections, as they were at the first listing. -/
def names : List Text := WildcardDirectory.listing base (past.scanned.getD past.files)

/-- Listed now, unless it was before. -/
def scanning : Record := { past with scanned := some (past.scanned.getD past.files) }

/-- Some names loaded now. -/
def loading (names : List Text) : Record :=
  { past with loads := past.loads ++ names.map fun name => (past.files, name) }

/-- The names that are loaded of several: those up to the first that fails. -/
def loaded : List Text → List Text
  | [] => []
  | name :: names => name :: if (past.snapshot read name).isOk then loaded names else []

/-- What a name that is no pattern, or a pattern, resolves to. A pattern stands for the values of
the names that it matches, taken in the order of the names and each value once. -/
def answer (name : Text) : Except LoadError (List Text) :=
  if Glob.isPattern name then
    ((Glob.matching name (past.names base)).mapM (past.snapshot read)).map fun values =>
      values.flatten.eraseDups
  else past.snapshot read name

/-- The record after an event. -/
def after : DirectoryEvent → Record
  | .resolve name =>
    if Glob.isPattern name then
      past.scanning.loading (past.loaded read (Glob.matching name (past.names base)))
    else past.loading [name]
  | .list => past.scanning
  | .clear => ⟨past.files, [], none⟩
  | event => { past with files := past.files.after event }

/-! ### Loads -/

variable {read past}

theorem served_loading (names : List Text) (name : Text) :
    (past.loading names).served read name =
      (past.served read name).or (if name ∈ names then (read past.files name).toOption
        else none) := by
  rw [served, served, loading, List.findSome?_append]
  congr 1
  induction names with
  | nil => rfl
  | cons other names ih =>
    rw [List.map_cons, List.findSome?_cons, ih]
    by_cases hname : other = name
    · subst hname
      cases (read past.files other).toOption <;> simp
    · have hother : name ≠ other := fun h => hname h.symm
      simp [hname, hother]

theorem served_loading_of_ne {name other : Text} (hother : other ≠ name) :
    (past.loading [name]).served read other = past.served read other := by
  have hnot : other ∉ [name] := fun hmem => hother (List.mem_singleton.1 hmem)
  rw [served_loading, if_neg hnot, Option.or_none]

/-- Loading now changes no snapshot: what is not served is as the files have it now. -/
theorem snapshot_loading (names : List Text) :
    (past.loading names).snapshot read = past.snapshot read := by
  funext name
  rw [snapshot, snapshot, served_loading]
  -- what was served stays served; what was not is read from the files, before and after
  cases past.served read name with
  | some values => rfl
  | none =>
    dsimp only [Option.none_or]
    split
    · next values hvalues =>
      split at hvalues
      · cases hread : read past.files name with
        | ok found =>
          rw [hread] at hvalues
          cases hvalues
          rfl
        | error error => rw [hread] at hvalues; cases hvalues
      · cases hvalues
    · rfl

/-- Records with the same snapshots load the same of several names. -/
theorem loaded_congr {other : Record} (h : other.snapshot read = past.snapshot read)
    (names : List Text) :
    other.loaded read names = past.loaded read names := by
  induction names with
  | nil => rfl
  | cons name names ih => rw [loaded, loaded, h, ih]

theorem loading_loading (names others : List Text) :
    (past.loading names).loading others = past.loading (names ++ others) := by
  rw [loading, loading, loading, List.map_append, List.append_assoc]

end Record

/-! ## 3. The mirror -/

/-- The directory keeps what its record says, and reads files in this way. -/
structure Watched.Mirrors (read : FileTree → Text → Except LoadError (List Text)) (base : Path)
    (w : Watched) (past : Record) : Prop where
  files : w.files = past.files
  place : w.directory.base = base
  reads : ∀ files name, WildcardDirectory.fileValues files w.directory name = read files name
  loaded : ∀ name, w.directory.loaded.lookup name = past.served read name
  listed : w.directory.listed = past.scanned.map (WildcardDirectory.listing base)

namespace Watched.Mirrors

open WildcardDirectory

variable {read : FileTree → Text → Except LoadError (List Text)} {base : Path} {files : FileTree}
  {d : WildcardDirectory} {past : Record}

/-- A load only settles what is kept for its own name. -/
theorem keep (h : Mirrors read base ⟨files, d⟩ past) {d' : WildcardDirectory}
    (hplace : d'.base = d.base) (hlisted : d'.listed = d.listed) {name : Text}
    (hothers : ∀ other, other ≠ name → d'.loaded.lookup other = d.loaded.lookup other)
    (hown : d'.loaded.lookup name = (past.loading [name]).served read name) :
    Mirrors read base ⟨files, d'⟩ (past.loading [name]) where
  files := h.files
  place := hplace.trans h.place
  reads tree other := by
    rw [← h.reads tree other]
    dsimp only
    rw [fileValues, fileValues, contains, contains, hplace]
  -- only the name that was asked for can have changed
  loaded other := by
    by_cases hother : other = name
    · subst hother
      exact hown
    · rw [Record.served_loading_of_ne hother, ← h.loaded other]
      exact hothers other hother
  listed := hlisted.trans h.listed

/-- One name: it has the values of its snapshot, and the load is on the record. -/
theorem load (h : Mirrors read base ⟨files, d⟩ past) (name : Text) :
    (WildcardDirectory.load files name d).1 = past.snapshot read name ∧
      Mirrors read base ⟨files, (WildcardDirectory.load files name d).2⟩ (past.loading [name]) := by
  have hserved : d.loaded.lookup name = past.served read name := h.loaded name
  have hread : fileValues files d name = read past.files name :=
    (h.reads files name).trans (congrArg (read · name) h.files)
  have hloading : (past.loading [name]).served read name =
      (past.served read name).or (read past.files name).toOption := by
    rw [Record.served_loading, if_pos (List.mem_singleton_self name)]
  unfold WildcardDirectory.load Record.snapshot
  rw [← hserved]
  -- served before, read with an error that is not kept, or read and kept from now on
  cases hlookup : d.loaded.lookup name with
  | some values =>
    refine ⟨rfl, h.keep rfl rfl (fun _ _ => rfl) ?_⟩
    rw [hloading, ← hserved, hlookup]
    rfl
  | none =>
    rw [hread]
    cases hvalues : read past.files name with
    | error error =>
      refine ⟨rfl, h.keep rfl rfl (fun _ _ => rfl) ?_⟩
      rw [hloading, ← hserved, hlookup, hvalues]
      rfl
    | ok values =>
      refine ⟨rfl, h.keep ?_ ?_ (fun other hother => ?_) ?_⟩
      · rfl
      · rfl
      · rw [List.lookup_cons, beq_false_of_ne hother]
      · rw [hloading, ← hserved, hlookup, hvalues, List.lookup_cons, beq_self_eq_true]
        rfl

/-- Several names, up to the first that fails. -/
theorem loadAll (names : List Text) (h : Mirrors read base ⟨files, d⟩ past) :
    (WildcardDirectory.loadAll files names d).1 =
        (names.mapM (past.snapshot read)).map List.flatten ∧
      Mirrors read base ⟨files, (WildcardDirectory.loadAll files names d).2⟩
        (past.loading (past.loaded read names)) := by
  induction names generalizing d past with
  | nil =>
    refine ⟨rfl, ?_⟩
    rw [Record.loaded, Record.loading, List.map_nil, List.append_nil]
    exact h
  | cons name names ih =>
    obtain ⟨hfirst, hload⟩ := h.load name
    rw [WildcardDirectory.loadAll, List.mapM_cons, Record.loaded, ← hfirst]
    revert hload
    generalize WildcardDirectory.load files name d = first
    obtain ⟨result, d'⟩ := first
    intro hload
    cases result with
    | error error => exact ⟨rfl, hload⟩
    | ok values =>
      -- the rest is loaded when the first name already is, which changes no snapshot
      obtain ⟨hrest, hloads⟩ := ih hload
      rw [Record.snapshot_loading] at hrest
      rw [Record.loaded_congr (Record.snapshot_loading _), Record.loading_loading] at hloads
      have hok : (Except.ok values : Except LoadError (List Text)).isOk = true := rfl
      rw [if_pos hok]
      revert hloads hrest
      dsimp only
      generalize WildcardDirectory.loadAll files names d' = others,
        List.mapM (past.snapshot read) names = snapshots
      obtain ⟨result, d''⟩ := others
      rintro hrest hloads
      cases snapshots with
      | error error =>
        obtain rfl : result = .error error := hrest
        exact ⟨rfl, hloads⟩
      | ok others =>
        obtain rfl : result = .ok others.flatten := hrest
        exact ⟨rfl, hloads⟩

/-- The listing is that of the first time. -/
theorem list (h : Mirrors read base ⟨files, d⟩ past) :
    (WildcardDirectory.list files d).1 = past.names base ∧
      Mirrors read base ⟨files, (WildcardDirectory.list files d).2⟩ past.scanning := by
  have hlisted := h.listed
  have hfiles : files = past.files := h.files
  have hbase : d.base = base := h.place
  unfold WildcardDirectory.list Record.names
  dsimp only at hlisted
  rw [hlisted]
  -- the listing is made once, at the first time, and is the same from then on
  cases hscanned : past.scanned with
  | some scanned =>
    refine ⟨rfl, h.files, h.place, h.reads, h.loaded, ?_⟩
    simp only [Option.map_some, Record.scanning, hscanned, Option.getD_some, hlisted]
  | none =>
    have hnames : Text.sort ((files.filesBelow d.base).filterMap nameOf?) =
        listing base past.files := by
      rw [hfiles, hbase, listing]
    refine ⟨hnames, h.files, h.place, h.reads, h.loaded, ?_⟩
    simp only [Option.map_none, Record.scanning, hscanned, Option.getD_none,
      Option.map_some, hnames]

/-- A name or a pattern resolves to what the record answers. -/
theorem resolve (h : Mirrors read base ⟨files, d⟩ past) (name : Text) :
    (WildcardDirectory.resolve files name d).1 = past.answer read base name ∧
      Mirrors read base ⟨files, (WildcardDirectory.resolve files name d).2⟩
        (past.after read base (.resolve name)) := by
  rw [WildcardDirectory.resolve, Record.answer, Record.after]
  -- a pattern lists, matches and loads each name; a plain name is loaded alone
  split
  · obtain ⟨hnames, hlist⟩ := h.list
    revert hnames hlist
    generalize WildcardDirectory.list files d = listed
    obtain ⟨names, d'⟩ := listed
    rintro rfl hlist
    obtain ⟨hvalues, hloads⟩ := hlist.loadAll (Glob.matching name (past.names base))
    have hsnapshot : past.scanning.snapshot read = past.snapshot read := rfl
    rw [hsnapshot] at hvalues
    rw [Record.loaded_congr hsnapshot] at hloads
    revert hvalues hloads
    dsimp only
    generalize WildcardDirectory.loadAll files (Glob.matching name (past.names base)) d' = found,
      List.mapM (past.snapshot read) (Glob.matching name (past.names base)) = snapshots
    obtain ⟨result, d''⟩ := found
    rintro hvalues hloads
    cases snapshots with
    | error error =>
      obtain rfl : result = .error error := hvalues
      exact ⟨rfl, hloads⟩
    | ok values =>
      obtain rfl : result = .ok values.flatten := hvalues
      exact ⟨rfl, hloads⟩
  · exact h.load name

/-- One event is mirrored. -/
theorem after {w : Watched} (h : w.Mirrors read base past) (event : DirectoryEvent) :
    (w.after event).Mirrors read base (past.after read base event) := by
  obtain ⟨files, d⟩ := w
  have hfiles : files = past.files := h.files
  subst hfiles
  cases event with
  | write path bytes => exact ⟨rfl, h.place, h.reads, h.loaded, h.listed⟩
  | remove path => exact ⟨rfl, h.place, h.reads, h.loaded, h.listed⟩
  | resolve name => exact (h.resolve name).2
  | list => exact h.list.2
  | clear => exact ⟨rfl, h.place, h.reads, fun _ => rfl, rfl⟩

/-- So is every history. -/
theorem foldl {w : Watched} (h : w.Mirrors read base past) (events : List DirectoryEvent) :
    (events.foldl Watched.after w).Mirrors read base
      (events.foldl (Record.after read base) past) := by
  induction events generalizing w past with
  | nil => exact h
  | cons event events ih => exact ih (h.after event)

end Watched.Mirrors

/-! ## 4. The directory -/

namespace WildcardDirectory

/-- Reading a file does not depend on what was read before; below the root, a file is inside of
the directory if its path goes on from that of the directory. -/
theorem fileValues_eq_contents {d : WildcardDirectory} (hroot : d.base ≠ []) (files : FileTree)
    (name : Text) :
    fileValues files d name = contents d.base files name := by
  have hinside : d.contains (Path.resolve d.base (name ++ extension)) = true ↔
      d.base <+: Path.resolve d.base (name ++ extension) ∧
        Path.resolve d.base (name ++ extension) ≠ d.base := by
    rw [contains, Bool.and_eq_true, Bool.and_eq_true, List.isPrefixOf_iff_prefix, bne_iff_ne]
    simp [hroot]
  rw [fileValues, contents]
  -- being inside the base is the same whether it is asked of the texts or of the names
  by_cases h : d.contains (Path.resolve d.base (name ++ extension)) = true
  · rw [if_pos h, if_pos (hinside.1 h)]
    cases files.at? (Path.resolve d.base (name ++ extension)) with
    | none => rfl
    | some entry =>
      cases entry with
      | file bytes => rfl
      | directory => rfl
  · rw [if_neg h, if_neg fun hin => h (hinside.2 hin)]

/-- A load that fails leaves the directory as it was. -/
theorem eq_of_load_error {files : FileTree} {name : Text} {d after : WildcardDirectory}
    {error : LoadError} (h : d.load files name = (.error error, after)) : after = d := by
  unfold load at h
  split at h
  · cases h
  · split at h
    · cases h
      rfl
    · cases h

/-- A directory that nothing was asked of mirrors the empty record. -/
theorem mirrors_ofPath {files : FileTree} {path : Text} {d : WildcardDirectory}
    (hd : ofPath files path = .ok d) {read : FileTree → Text → Except LoadError (List Text)}
    (hread : ∀ files name, fileValues files d name = read files name) :
    Watched.Mirrors read d.base ⟨files, d⟩ ⟨files, [], none⟩ := by
  unfold ofPath at hd
  dsimp only at hd
  split at hd
  · cases hd
    exact ⟨rfl, rfl, hread, fun _ => rfl, rfl⟩
  · cases hd

end WildcardDirectory

open WildcardDirectory in
/-- **A directory serves one snapshot of each name.** Whatever is written, removed, resolved,
listed and cleared in whatever order, a name that is no pattern resolves to the values that its
file had when the name was first loaded without failing since the last clearing, by itself or for a
pattern; the listing is that of the first listing or pattern since then, in ascending order; and a
pattern resolves to these values of the names that it matches, in the order of the names and each
value once, if none of the names fails. A load that fails leaves the directory as it was. -/
theorem Watched.serves_snapshots {files : FileTree} {path : Text} {d : WildcardDirectory}
    (hd : ofPath files path = .ok d) (hroot : d.base ≠ []) (events : List DirectoryEvent) :
    let now := events.foldl Watched.after ⟨files, d⟩
    let past := events.foldl (Record.after (contents d.base) d.base) ⟨files, [], none⟩
    (∀ name, Glob.isPattern name = false →
      (now.directory.resolve now.files name).1 = past.snapshot (contents d.base) name) ∧
    ((now.directory.list now.files).1 = past.names d.base ∧
      (past.names d.base).Pairwise fun s t => Text.le s t = true) ∧
    (∀ pattern, Glob.isPattern pattern = true →
      (now.directory.resolve now.files pattern).1 =
        ((Glob.matching pattern (past.names d.base)).mapM (past.snapshot (contents d.base))).map
          (fun values => values.flatten.eraseDups) ∧
      ((Glob.matching pattern (past.names d.base)).Pairwise fun s t => Text.le s t = true) ∧
      ∀ values, (now.directory.resolve now.files pattern).1 = .ok values → values.Nodup) ∧
    ∀ name error after, now.directory.load now.files name = (.error error, after) →
      after = now.directory := by
  intro now past
  have hmirrors : now.Mirrors (contents d.base) d.base past :=
    (mirrors_ofPath hd (fileValues_eq_contents hroot)).foldl events
  have hanswer : ∀ name, (now.directory.resolve now.files name).1 =
      past.answer (contents d.base) d.base name :=
    fun name => (hmirrors.resolve name).1
  -- all answers are those of the record, so the rest is about what the record says
  refine ⟨fun name hname => ?_, ⟨hmirrors.list.1, Text.pairwise_sort _⟩, fun pattern hpattern => ?_,
    fun _ _ _ hload => eq_of_load_error hload⟩
  · rw [hanswer, Record.answer, hname, if_neg Bool.false_ne_true]
  · have hglob := hanswer pattern
    rw [Record.answer, if_pos hpattern] at hglob
    refine ⟨hglob, Text.pairwise_sort _, fun values hvalues => ?_⟩
    rw [hglob] at hvalues
    cases hmatched : (Glob.matching pattern (past.names d.base)).mapM
      (past.snapshot (contents d.base)) with
    | error error => rw [hmatched] at hvalues; cases hvalues
    | ok matched =>
      rw [hmatched] at hvalues
      cases hvalues
      exact Text.nodup_eraseDups _

/-- A directory of wildcards with a kennel in it. -/
def kennelFiles : FileTree :=
  ⟨[([units "w"], .directory), ([units "w", units "pets.txt"],
    .file (Utf8.encode (units "cat\n# dog\n")))], []⟩

/-- The pets are loaded, then removed, and then a bird comes for the first time. -/
def kennelEvents : List DirectoryEvent :=
  [.resolve (units "pets"), .remove (units "/w/pets.txt"), .resolve (units "birds"),
    .write (units "/w/birds.txt") (Utf8.encode (units "wren"))]

/-- The cat is kept, and the bird stays unknown. -/
theorem Watched.serves_snapshots_of_kennel :
    WildcardDirectory.ofPath kennelFiles (units "/w") = .ok ⟨[units "w"], [], none⟩ ∧
      [units "w"] ≠ [] ∧
      let now := kennelEvents.foldl Watched.after ⟨kennelFiles, ⟨[units "w"], [], none⟩⟩
      (now.directory.resolve now.files (units "pets")).1 = .ok [units "cat"] ∧
        (now.directory.resolve now.files (units "birds")).1 = .ok [] := by
  have hd : WildcardDirectory.ofPath kennelFiles (units "/w") = .ok ⟨[units "w"], [], none⟩ := rfl
  have hroot : [units "w"] ≠ [] := by decide
  obtain ⟨hnames, -⟩ := Watched.serves_snapshots hd hroot kennelEvents
  refine ⟨hd, hroot, ?_, ?_⟩
  · exact (hnames (units "pets") rfl).trans rfl
  · exact (hnames (units "birds") rfl).trans rfl

end PromptTemplate
