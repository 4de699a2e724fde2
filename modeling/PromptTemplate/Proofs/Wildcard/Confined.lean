/-
`Confined.lean` -- nothing outside of a directory of wildcards is ever read.

Names come out of rendered templates and may be anything: they go up, start at the root, or spell
the beginning of a neighbour's name. What they lead to is told by their text alone, and only a path
that goes on from that of the directory is looked at. So two trees of files that agree at the
directory and below it can not be told apart: from the same state every call gives the same reply
and leaves the same state, and a session starts in the same state or with the same error.
-/
import PromptTemplate.Proofs.Files.Trees
import PromptTemplate.Wildcard.Directory

set_option autoImplicit false

namespace PromptTemplate

/-! ## 1. Paths inside -/

namespace Path

/-- A text is cut at a slash in it. -/
theorem splitAt_append_slash (t more : Text) :
    Text.splitAt slash (t ++ slash :: more) = Text.splitAt slash t ++ Text.splitAt slash more := by
  induction t with
  | nil => rfl
  | cons u t ih =>
    obtain ⟨piece, pieces, hpieces⟩ := List.exists_cons_of_ne_nil (Text.splitAt_ne_nil slash t)
    rw [List.cons_append, Text.splitAt, Text.splitAt, ih, hpieces]
    split <;> rfl

/-- Plain names and more of them, as they are written. -/
theorem join_append_plain {names rest : Path} (hne : names ≠ []) (hrest : rest ≠ []) :
    Text.join [slash] (names ++ rest) = Text.join [slash] names ++
      slash :: Text.join [slash] rest := by
  induction names with
  | nil => exact absurd rfl hne
  | cons name names ih =>
    by_cases hnames : names = []
    · subst hnames
      rw [List.singleton_append, Text.join_cons hrest, List.append_assoc]
      rfl
    · rw [List.cons_append, Text.join_cons (by simp [hnames]), ih hnames, Text.join_cons hnames]
      simp only [List.append_assoc]

end Path

namespace WildcardDirectory

/-- **A path is inside by its text.** The test of the names is the test whether the written path
begins with that of the directory and a slash, so a neighbour is outside even if its name begins
like that of the directory; and nothing is inside of the root. -/
theorem contains_eq_startsWith {d : WildcardDirectory} {path : Path}
    (hbase : ∀ name ∈ d.base, Path.Plain name) (hpath : ∀ name ∈ path, Path.Plain name) :
    d.contains path = (Path.toText path).startsWith (Path.toText d.base ++ [Path.slash]) := by
  have hsplit {names : Path} (hne : names ≠ []) (hplain : ∀ name ∈ names, Path.Plain name) :
      Text.splitAt Path.slash (Text.join [Path.slash] names) = names :=
    Text.splitAt_join hne fun name hmem => (hplain name hmem).slash
  rw [Bool.eq_iff_iff, contains, Bool.and_eq_true, Bool.and_eq_true, List.isPrefixOf_iff_prefix,
    bne_iff_ne, Text.startsWith, List.isPrefixOf_iff_prefix, Path.toText, Path.toText,
    List.cons_append, List.cons_prefix_cons, Bool.not_eq_true', List.isEmpty_eq_false_iff]
  -- as texts, the base with its slash begins the path; as names, the base
  -- begins it and more follows
  constructor
  · rintro ⟨⟨hroot, rest, rfl⟩, hne⟩
    have hrest : rest ≠ [] := fun hrest => hne (by rw [hrest, List.append_nil])
    rw [Path.join_append_plain hroot hrest]
    exact ⟨rfl, Text.join [Path.slash] rest, by rw [List.append_assoc]; rfl⟩
  · rintro ⟨-, more, hmore⟩
    rw [List.append_assoc, List.singleton_append] at hmore
    have hne : path ≠ [] := by
      rintro rfl
      exact absurd hmore (by simp [Text.join])
    have hnames := hsplit hne hpath
    rw [← hmore, Path.splitAt_append_slash] at hnames
    by_cases hroot : d.base = []
    · -- behind the slash of the root no name is empty
      rw [hroot] at hnames
      exact absurd rfl (hpath [] (hnames ▸ List.mem_cons_self)).ne_nil
    · rw [hsplit hroot hbase] at hnames
      refine ⟨⟨hroot, _, hnames⟩, fun heq => Text.splitAt_ne_nil Path.slash more ?_⟩
      rw [← hnames] at heq
      exact List.append_right_eq_self.1 heq

end WildcardDirectory

/-! ## 2. Sessions -/

/-- What a directory of wildcards can be asked to do. -/
inductive DirectoryCall
  | resolve (name : Text)
  | list
  | clear

/-- What comes back. -/
inductive DirectoryReply
  | values (found : Except LoadError (List Text))
  | names (names : List Text)
  | cleared

namespace WildcardDirectory

/-- One call: its reply, and the directory with what it keeps. -/
def call (tree : FileTree) (d : WildcardDirectory) : DirectoryCall →
    DirectoryReply × WildcardDirectory
  | .resolve name => (.values (d.resolve tree name).1, (d.resolve tree name).2)
  | .list => (.names (d.list tree).1, (d.list tree).2)
  | .clear => (.cleared, d.clear)

/-- The replies to calls one after another. -/
def replies (tree : FileTree) : WildcardDirectory → List DirectoryCall → List DirectoryReply
  | _, [] => []
  | d, next :: calls => (d.call tree next).1 :: replies tree (d.call tree next).2 calls

/-- A session: the directory of a written path is opened, and called. -/
def session (tree : FileTree) (written : Text) (calls : List DirectoryCall) :
    Except LoadError (List DirectoryReply) :=
  (ofPath tree written).map fun d => d.replies tree calls

end WildcardDirectory

/-- Two trees that agree at a path and on everything below it. -/
def FileTree.SameBelow (base : Path) (mine yours : FileTree) : Prop :=
  ∀ path, base <+: path → mine.at? path = yours.at? path

/-! ## 3. What is read -/

namespace FileTree.SameBelow

variable {base : Path} {mine yours : FileTree}

/-- The files below the path are the same, though in another order. -/
theorem filesBelow_perm (h : SameBelow base mine yours) (hmine : mine.Proper)
    (hyours : yours.Proper) :
    (mine.filesBelow base).Perm (yours.filesBelow base) := by
  refine (List.perm_ext_iff_of_nodup (hmine.nodup_filesBelow base) (hyours.nodup_filesBelow base)).2
    fun names => ?_
  rw [hmine.mem_filesBelow, hyours.mem_filesBelow, h _ (List.prefix_append base names)]

/-- Trees agree there if the entries there are the same, in the same order. -/
theorem of_filter (h : (mine.entries.filter fun entry => base.isPrefixOf entry.1) =
    yours.entries.filter fun entry => base.isPrefixOf entry.1) : SameBelow base mine yours := by
  have hlookup (entries : List (Path × Entry)) {path : Path} (hpath : base <+: path) :
      (entries.filter fun entry => base.isPrefixOf entry.1).lookup path = entries.lookup path := by
    induction entries with
    | nil => rfl
    | cons entry entries ih =>
      obtain ⟨key, found⟩ := entry
      rw [List.filter_cons]
      by_cases hkey : path = key
      -- entries that are filtered out are not below the base, so no path looked up here is theirs
      · subst hkey
        rw [if_pos (List.isPrefixOf_iff_prefix.2 hpath), List.lookup_cons_self,
          List.lookup_cons_self]
      · rw [List.lookup_cons, beq_false_of_ne hkey, ← ih]
        split
        · rw [List.lookup_cons, beq_false_of_ne hkey]
        · rfl
  intro path hpath
  rw [FileTree.at?, FileTree.at?, ← hlookup mine.entries hpath, h, hlookup yours.entries hpath]

end FileTree.SameBelow

namespace WildcardDirectory

variable {mine yours : FileTree} {d : WildcardDirectory}

/-! ### The directory stays where it is -/

theorem load_base (tree : FileTree) (name : Text) (d : WildcardDirectory) :
    (load tree name d).2.base = d.base := by
  unfold load
  split
  · rfl
  · split <;> rfl

theorem loadAll_base (tree : FileTree) (names : List Text) (d : WildcardDirectory) :
    (loadAll tree names d).2.base = d.base := by
  induction names generalizing d with
  | nil => rfl
  | cons name names ih =>
    have hfirst := load_base tree name d
    simp only [loadAll]
    -- the first name that fails ends the loading; neither outcome moves the base
    rcases hloaded : load tree name d with ⟨_ | _, after⟩
    · rw [hloaded] at hfirst
      exact hfirst
    · rw [hloaded] at hfirst
      have hrest := (ih after).trans hfirst
      dsimp only
      rcases hmore : loadAll tree names after with ⟨_ | _, last⟩
      · rw [hmore] at hrest
        exact hrest
      · rw [hmore] at hrest
        exact hrest

theorem list_base (tree : FileTree) (d : WildcardDirectory) : (list tree d).2.base = d.base := by
  unfold list
  split <;> rfl

theorem resolve_base (tree : FileTree) (name : Text) (d : WildcardDirectory) :
    (resolve tree name d).2.base = d.base := by
  unfold resolve
  split
  · have hbase :=
      (loadAll_base tree (Glob.matching name (list tree d).1) (list tree d).2).trans
      (list_base tree d)
    dsimp only
    rcases hloaded : loadAll tree (Glob.matching name (list tree d).1) (list tree d).2
      with ⟨_ | _, after⟩
    · rw [hloaded] at hbase
      exact hbase
    · rw [hloaded] at hbase
      exact hbase
  · exact load_base tree name d

theorem call_base (tree : FileTree) (d : WildcardDirectory) (next : DirectoryCall) :
    (d.call tree next).2.base = d.base := by
  cases next with
  | resolve name => exact resolve_base tree name d
  | list => exact list_base tree d
  | clear => rfl

/-! ### What is read -/

/-- Only a path inside is looked at. -/
theorem fileValues_confined (h : FileTree.SameBelow d.base mine yours) (name : Text) :
    fileValues mine d name = fileValues yours d name := by
  unfold fileValues
  dsimp only
  split
  · next hinside =>
    rw [contains, Bool.and_eq_true, Bool.and_eq_true] at hinside
    rw [h _ (List.isPrefixOf_iff_prefix.1 hinside.1.2)]
  · rfl

theorem load_confined (h : FileTree.SameBelow d.base mine yours) (name : Text) :
    load mine name d = load yours name d := by
  unfold load
  rw [fileValues_confined h]

theorem loadAll_confined (h : FileTree.SameBelow d.base mine yours) (names : List Text) :
    loadAll mine names d = loadAll yours names d := by
  induction names generalizing d with
  | nil => rfl
  | cons name names ih =>
    have hbase := load_base yours name d
    unfold loadAll
    rw [load_confined h]
    rcases hloaded : load yours name d with ⟨_ | _, after⟩
    · rfl
    · rw [hloaded] at hbase
      dsimp only
      rw [ih (hbase ▸ h)]

/-- The listing is in order, whatever order the files are found in. -/
theorem list_confined (h : FileTree.SameBelow d.base mine yours) (hmine : mine.Proper)
    (hyours : yours.Proper) :
    list mine d = list yours d := by
  have hnames := Text.sort_eq_of_perm ((h.filesBelow_perm hmine hyours).filterMap nameOf?)
  unfold list
  rw [hnames]

theorem resolve_confined (h : FileTree.SameBelow d.base mine yours) (hmine : mine.Proper)
    (hyours : yours.Proper) (name : Text) : resolve mine name d = resolve yours name d := by
  unfold resolve
  rw [list_confined h hmine hyours, load_confined h]
  dsimp only
  rw [loadAll_confined ((list_base yours d).symm ▸ h)]

/-- One call: the same reply, and the same is kept. -/
theorem call_confined (h : FileTree.SameBelow d.base mine yours) (hmine : mine.Proper)
    (hyours : yours.Proper) (next : DirectoryCall) : d.call mine next = d.call yours next := by
  cases next with
  | resolve name => rw [call, call, resolve_confined h hmine hyours]
  | list => rw [call, call, list_confined h hmine hyours]
  | clear => rfl

/-- All calls one after another. The induction is on the calls; what is kept stays the same. -/
theorem replies_confined (h : FileTree.SameBelow d.base mine yours) (hmine : mine.Proper)
    (hyours : yours.Proper) (calls : List DirectoryCall) :
    d.replies mine calls = d.replies yours calls := by
  induction calls generalizing d with
  | nil => rfl
  | cons next calls ih =>
    rw [replies, replies, call_confined h hmine hyours]
    rw [ih ((call_base yours d next).symm ▸ h)]

end WildcardDirectory

/-- **Nothing outside of the directory is ever read.** Two trees of files agree at a path and on
everything below it, and elsewhere they may be anything. A directory of wildcards that is opened
there has the same replies on both, errors included, to all calls for names, listings and clearings
in any order, whatever the names are; and if it can not be opened, the error is the same. -/
theorem session_confined {mine yours : FileTree} (hmine : mine.Proper) (hyours : yours.Proper)
    {written : Text} (hwritten : mine.resolve written = yours.resolve written)
    (hsame : FileTree.SameBelow (mine.resolve written) mine yours) (calls : List DirectoryCall) :
    WildcardDirectory.session mine written calls =
      WildcardDirectory.session yours written calls := by
  have hopen : WildcardDirectory.ofPath mine written = WildcardDirectory.ofPath yours written := by
    unfold WildcardDirectory.ofPath
    dsimp only
    rw [hsame _ List.prefix_rfl, hwritten]
  rw [WildcardDirectory.session, WildcardDirectory.session, hopen]
  -- opening looks at the place of the base, which is the same entry in both trees
  cases hopened : WildcardDirectory.ofPath yours written with
  | error error => rfl
  | ok d =>
    have hbase : d.base = mine.resolve written := by
      unfold WildcardDirectory.ofPath at hopened
      dsimp only at hopened
      split at hopened
      · cases hopened
        exact hwritten.symm
      · cases hopened
    exact congrArg Except.ok (WildcardDirectory.replies_confined (hbase ▸ hsame) hmine hyours calls)

/-- A directory with one collection, between a secret and a neighbour that begins with its name. -/
def guardedFiles : FileTree :=
  ⟨[([units "key.txt"], .file (Utf8.encode (units "k"))), ([units "w"], .directory),
    ([units "w", units "pets.txt"], .file (Utf8.encode (units "cat"))), ([units "w2"], .directory),
    ([units "w2", units "key.txt"], .file (Utf8.encode (units "k")))], []⟩

/-- The same directory on its own. -/
def lonelyFiles : FileTree :=
  ⟨[([units "w"], .directory), ([units "w", units "pets.txt"], .file (Utf8.encode (units "cat")))],
    []⟩

/-- Names that lead out of the directory in every way, and what is asked of it otherwise. -/
def pryingCalls : List DirectoryCall :=
  [.resolve (units "../key"), .resolve (units "/key"), .resolve (units "./..//w2/key"),
    .resolve (units "../w2/*"),
    .list, .resolve (units "x/../pets"), .clear, .resolve (units "**")]

theorem session_confined_of_guarded :
    guardedFiles.Proper ∧ lonelyFiles.Proper ∧ guardedFiles.resolve (units "w") =
      lonelyFiles.resolve (units "w") ∧
      FileTree.SameBelow (guardedFiles.resolve (units "w")) guardedFiles lonelyFiles ∧
      guardedFiles.at? [units "key.txt"] ≠ lonelyFiles.at? [units "key.txt"] ∧
      WildcardDirectory.session guardedFiles (units "w") pryingCalls =
        WildcardDirectory.session lonelyFiles (units "w") pryingCalls := by
  have hguarded : guardedFiles.Proper := FileTree.proper_of_written
    [(units "/key.txt", Utf8.encode (units "k")), (units "/w/pets.txt", Utf8.encode (units "cat")),
      (units "/w2/key.txt", Utf8.encode (units "k"))] rfl
  have hlonely : lonelyFiles.Proper := FileTree.proper_of_written
    [(units "/w/pets.txt", Utf8.encode (units "cat"))] rfl
  have hwritten : guardedFiles.resolve (units "w") = lonelyFiles.resolve (units "w") := rfl
  have hsame : FileTree.SameBelow (guardedFiles.resolve (units "w")) guardedFiles lonelyFiles :=
    .of_filter rfl
  exact ⟨hguarded, hlonely, hwritten, hsame, by decide +kernel,
    session_confined hguarded hlonely hwritten hsame pryingCalls⟩

end PromptTemplate
