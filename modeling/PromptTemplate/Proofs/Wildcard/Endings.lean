/-
`Endings.lean` -- the file that a listed name leads back to.

The listing takes the extension off each name in whatever case it is spelled, while resolving puts
the extension itself behind a name. So a listed name leads back to its file where the extension is
spelled as it should be, and otherwise to whatever is at the path with the extension itself: to
another file, or to nothing. And a name is listed twice exactly where two files differ in nothing
but the case of their extensions.
-/
import Mathlib.Data.List.Pairwise
import PromptTemplate.Proofs.Files.Trees
import PromptTemplate.Proofs.Wildcard.Listed

set_option autoImplicit false

namespace PromptTemplate

namespace WildcardDirectory

/-- A file below a directory whose name ends in the extension, in whatever case. -/
structure Collects (files : FileTree) (base front : Path) (last ending : Text)
    (bytes : Bytes) : Prop where
  spelled : ending.map CodeUnit.toLower = extension
  file : files.at? (base ++ (front ++ [last ++ ending])) = some (.file bytes)

/-- The name of a collection by the names that lead to it. -/
def nameAt (front : Path) (last : Text) : Text := Text.join [Path.slash] (front ++ [last])

variable {files : FileTree} {base front : Path} {last ending : Text} {bytes : Bytes}

/-! ## 1. From names of files to names of collections -/

theorem length_spelled (h : ending.map CodeUnit.toLower = extension) :
    ending.length = extension.length := by
  rw [← h, List.length_map]

/-- The extension is left off in whatever case it is spelled. -/
theorem nameOf?_spelled (h : ending.map CodeUnit.toLower = extension) (front : Path) (last : Text) :
    nameOf? (front ++ [last ++ ending]) = some (nameAt front last) := by
  have hends : Text.endsWith ((last ++ ending).map CodeUnit.toLower) extension = true := by
    rw [List.map_append, h, Text.endsWith, List.isSuffixOf_iff_suffix]
    exact List.suffix_append _ _
  rw [nameOf?, List.getLast?_concat]
  dsimp only
  rw [if_pos hends, Text.join_append, ← length_spelled h, dropEnd_append, nameAt]

/-- Only such names of files are those of collections. -/
theorem exists_spelled_of_nameOf? {names : Path} {name : Text} (h : nameOf? names = some name) :
    ∃ front last ending, names = front ++ [last ++ ending] ∧
      ending.map CodeUnit.toLower = extension ∧
      name = nameAt front last := by
  cases hlast : names.getLast? with
  | none => rw [nameOf?, hlast] at h; cases h
  | some whole =>
    -- the name is that of the path without its ending, in whatever case the ending is written
    obtain ⟨front, rfl⟩ := List.getLast?_eq_some_iff.1 hlast
    have hends : Text.endsWith (whole.map CodeUnit.toLower) extension = true := by
      rw [nameOf?, hlast] at h
      by_contra hends
      dsimp only at h
      rw [if_neg hends] at h
      cases h
    obtain ⟨before, hbefore⟩ := List.isSuffixOf_iff_suffix.1 hends
    obtain ⟨last, ending, rfl, -, hending⟩ := List.map_eq_append_iff.1 hbefore.symm
    rw [nameOf?_spelled hending, Option.some_inj] at h
    exact ⟨front, last, ending, rfl, hending, h.symm⟩

/-- Without slashes in it, a name tells the names that lead to it. -/
theorem nameAt_inj {front front' : Path} {last last' : Text}
    (hplain : ∀ name ∈ front ++ [last], Path.slash ∉ name)
    (hplain' : ∀ name ∈ front' ++ [last'], Path.slash ∉ name)
    (h : nameAt front last = nameAt front' last') :
    front = front' ∧ last = last' := by
  have hsplit := congrArg (Text.splitAt Path.slash) h
  rw [nameAt, nameAt, Text.splitAt_join (by simp) hplain,
    Text.splitAt_join (by simp) hplain'] at hsplit
  obtain ⟨hfront, hlast⟩ := List.append_inj' hsplit rfl
  exact ⟨hfront, (List.cons.inj hlast).1⟩

namespace Collects

theorem plain (h : Collects files base front last ending bytes) (hproper : files.Proper) :
    ∀ name ∈ front ++ [last ++ ending], Path.Plain name :=
  fun name hname => hproper.plain_of_at? h.file name (List.mem_append_right _ hname)

theorem slash (h : Collects files base front last ending bytes) (hproper : files.Proper) :
    ∀ name ∈ front ++ [last], Path.slash ∉ name := by
  intro name hname
  have hplain := h.plain hproper
  rcases List.mem_append.1 hname with hname | hname
  · exact (hplain name (List.mem_append_left _ hname)).slash
  · rw [List.mem_singleton.1 hname]
    have hwhole := (hplain _ (List.mem_append_right _ List.mem_cons_self)).slash
    exact fun hslash => hwhole (List.mem_append_left _ hslash)

/-- With the extension itself in the place of its spelling, all names are plain still. -/
theorem plain_extension (h : Collects files base front last ending bytes) (hproper : files.Proper) :
    ∀ name ∈ front ++ [last ++ extension], Path.Plain name := by
  refine List.forall_mem_append.2 ⟨fun name hname =>
    h.plain hproper name (List.mem_append_left _ hname), ?_⟩
  have hslash := h.slash hproper last (List.mem_append_right _ List.mem_cons_self)
  have hlength : 4 ≤ (last ++ extension).length := by
    rw [List.length_append]
    exact Nat.le_add_left _ _
  refine List.forall_mem_singleton.2 ⟨?_, ?_, ?_, ?_⟩
  · exact List.ne_nil_of_length_pos (by omega)
  · exact fun heq => absurd (heq ▸ hlength) (by decide)
  · exact fun heq => absurd (heq ▸ hlength) (by decide)
  · rw [List.mem_append, not_or]
    exact ⟨hslash, by decide⟩

/-- A name leads to the file with the extension itself. -/
theorem resolve_nameAt (h : Collects files base front last ending bytes) (hproper : files.Proper) :
    Path.resolve base (nameAt front last ++ extension) = base ++
      (front ++ [last ++ extension]) := by
  rw [nameAt, ← Text.join_append, resolve_join (by simp) (h.plain_extension hproper)]

/-- Without a star in its path, the name of a collection is no pattern. -/
theorem isPattern_nameAt (h : Collects files base front last ending bytes) (hproper : files.Proper)
    (hstar : ∀ names ∈ files.filesBelow base, ∀ name ∈ names, Glob.star ∉ name) :
    Glob.isPattern (nameAt front last) = false := by
  have hnames := hstar _ (hproper.mem_filesBelow.2 ⟨bytes, h.file⟩)
  have hfree : ∀ name ∈ front ++ [last], Glob.star ∉ name := by
    refine List.forall_mem_append.2
      ⟨fun name hname => hnames name (List.mem_append_left _ hname), ?_⟩
    have hlast := hnames _ (List.mem_append_right _ List.mem_cons_self)
    exact List.forall_mem_singleton.2 fun hmem => hlast (List.mem_append_left _ hmem)
  rw [Glob.isPattern, Bool.eq_false_iff, Ne, List.contains_iff_mem, nameAt]
  intro hmem
  rcases Text.mem_join hmem with hslash | ⟨name, hname, hmem⟩
  · exact absurd (List.mem_singleton.1 hslash) (by decide)
  · exact hfree name hname hmem

end Collects

/-! ## 2. The listing -/

/-- What is listed are the names of the collections. -/
theorem mem_listing (hproper : files.Proper) {name : Text} :
    name ∈ listing base files ↔
      ∃ front last ending bytes, Collects files base front last ending bytes ∧
        name = nameAt front last := by
  rw [listing, Text.mem_sort, List.mem_filterMap]
  constructor
  · rintro ⟨names, hnames, hname⟩
    obtain ⟨front, last, ending, rfl, hending, rfl⟩ := exists_spelled_of_nameOf? hname
    obtain ⟨bytes, hfile⟩ := hproper.mem_filesBelow.1 hnames
    exact ⟨front, last, ending, bytes, ⟨hending, hfile⟩, rfl⟩
  · rintro ⟨front, last, ending, bytes, hcollects, rfl⟩
    exact ⟨_, hproper.mem_filesBelow.2 ⟨bytes, hcollects.file⟩,
      nameOf?_spelled hcollects.spelled front last⟩

/-- A name is listed once unless two files differ in the case of their extensions alone. -/
theorem nodup_listing (hproper : files.Proper) :
    (listing base files).Nodup ↔
      ∀ front last ending ending' bytes bytes', Collects files base front last ending bytes →
        Collects files base front last ending' bytes' → ending = ending' := by
  rw [listing, Text.sort, (List.mergeSort_perm _ _).nodup_iff, List.Nodup, List.pairwise_filterMap]
  constructor
  -- two files with one name differ in the case of the ending, and would be listed twice
  · intro hnodup front last ending ending' bytes bytes' hfirst hsecond
    by_contra hne
    have hdifferent : front ++ [last ++ ending] ≠ front ++ [last ++ ending'] := by simpa using hne
    have hmem := hproper.mem_filesBelow.2 ⟨bytes, hfirst.file⟩
    have hmem' := hproper.mem_filesBelow.2 ⟨bytes', hsecond.file⟩
    have hsymm : Std.Symm fun names names' =>
        ∀ name, nameOf? names = some name → ∀ name', nameOf? names' = some name' → name ≠ name' :=
      ⟨fun _ _ h name hname name' hname' => (h name' hname' name hname).symm⟩
    exact hnodup.forall hmem hmem' hdifferent _ (nameOf?_spelled hfirst.spelled front last) _
      (nameOf?_spelled hsecond.spelled front last) rfl
  · intro hone
    -- files listed under one name have the same names up to the ending, and hence one ending
    refine (hproper.nodup_filesBelow base).imp_of_mem
      fun {names names'} hmem hmem' hne name hname name' hname' => ?_
    obtain ⟨bytes, hfile⟩ := hproper.mem_filesBelow.1 hmem
    obtain ⟨bytes', hfile'⟩ := hproper.mem_filesBelow.1 hmem'
    obtain ⟨front, last, ending, rfl, hending, rfl⟩ := exists_spelled_of_nameOf? hname
    obtain ⟨front', last', ending', rfl, hending', rfl⟩ := exists_spelled_of_nameOf? hname'
    have hfirst : Collects files base front last ending bytes := ⟨hending, hfile⟩
    have hsecond : Collects files base front' last' ending' bytes' := ⟨hending', hfile'⟩
    intro hsame
    obtain ⟨rfl, rfl⟩ := nameAt_inj (hfirst.slash hproper) (hsecond.slash hproper) hsame
    exact hne (by rw [hone _ _ _ _ _ _ hfirst hsecond])

/-! ## 3. Back to the files -/

/-- A directory out of which nothing was read yet. -/
theorem eq_fresh_of_ofPath {written : Text} {d : WildcardDirectory}
    (hd : ofPath files written = .ok d) :
    d = ⟨d.base, [], none⟩ := by
  unfold ofPath at hd
  dsimp only at hd
  split at hd
  · cases hd
    rfl
  · cases hd

/-- What such a directory has for a name that is no pattern is read from the files. -/
theorem resolve_fresh (files : FileTree) (base : Path) {name : Text}
    (hname : Glob.isPattern name = false) :
    (resolve files name ⟨base, [], none⟩).1 = fileValues files ⟨base, [], none⟩ name := by
  rw [resolve, hname, if_neg Bool.false_ne_true, load]
  cases fileValues files ⟨base, [], none⟩ name with
  | error error => rfl
  | ok values => rfl

/-- Below a directory that is not the root, the name of a collection has what is at the path with
the extension itself. -/
theorem Collects.contents_nameAt (h : Collects files base front last ending bytes)
    (hproper : files.Proper) :
    contents base files (nameAt front last) =
      match files.at? (base ++ (front ++ [last ++ extension])) with
      | none => .ok []
      | some (.file own) => .ok (valuesOf (Utf8.decode own))
      | some .directory =>
        .error (.unreadable (Path.toText (base ++ (front ++ [last ++ extension])))
          (FileFault.isDirectory.message .read)) := by
  have hbelow : base <+: base ++ (front ++ [last ++ extension]) ∧
      base ++ (front ++ [last ++ extension]) ≠ base :=
    ⟨List.prefix_append _ _, by simp⟩
  rw [contents, h.resolve_nameAt hproper]
  exact if_pos hbelow

/-- **A listed name leads back to its file where the extension is spelled as it is.** What is
listed are the names of the files below the directory that end in the extension in whatever case,
and each once exactly if no two of them differ in this case alone. The name of a file resolves to
the values in it if the file ends in the extension itself. If its extension is spelled otherwise,
the name resolves to what is at the path with the extension itself: to the values of another file,
to none, or to an error where there is a directory. From the root as the directory, every name
resolves to nothing. -/
theorem resolve_listed (hproper : files.Proper) {written : Text} {d : WildcardDirectory}
    (hd : ofPath files written = .ok d)
    (hstar : ∀ names ∈ files.filesBelow d.base, ∀ name ∈ names, Glob.star ∉ name) :
    ((list files d).1.Pairwise fun s t => Text.le s t = true) ∧
    (∀ name, name ∈ (list files d).1 ↔
      ∃ front last ending bytes, Collects files d.base front last ending bytes ∧
        name = nameAt front last) ∧
    ((list files d).1.Nodup ↔
      ∀ front last ending ending' bytes bytes', Collects files d.base front last ending bytes →
        Collects files d.base front last ending' bytes' → ending = ending') ∧
    ∀ front last ending bytes, Collects files d.base front last ending bytes →
      (d.base = [] → (resolve files (nameAt front last) d).1 = .ok []) ∧
      (d.base ≠ [] → ending = extension →
        (resolve files (nameAt front last) d).1 = .ok (valuesOf (Utf8.decode bytes))) ∧
      (d.base ≠ [] → ending ≠ extension →
        (resolve files (nameAt front last) d).1 =
          let path := d.base ++ (front ++ [last ++ extension])
          match files.at? path with
          | none => .ok []
          | some (.file own) => .ok (valuesOf (Utf8.decode own))
          | some .directory =>
            .error (.unreadable (Path.toText path) (FileFault.isDirectory.message .read))) := by
  obtain ⟨base, loaded, listed⟩ := d
  obtain ⟨-, rfl, rfl⟩ := WildcardDirectory.mk.inj (eq_fresh_of_ofPath hd)
  refine ⟨Text.pairwise_sort _, fun name => mem_listing hproper, nodup_listing hproper, ?_⟩
  intro front last ending bytes hcollects
  have hload := resolve_fresh files base (hcollects.isPattern_nameAt hproper hstar)
  have hbelow (hroot : base ≠ []) :=
    (hload.trans (fileValues_eq_contents hroot _ _)).trans (hcollects.contents_nameAt hproper)
  refine ⟨fun hroot => ?_, fun hroot hending => ?_, fun hroot _ => hbelow hroot⟩
  · subst hroot
    exact hload
  · rw [hbelow hroot, ← hending, hcollects.file]

/-- A directory with a collection in it, and one below it with an extension in capitals. -/
def aviaryFiles : FileTree :=
  ⟨[([units "w"], .directory), ([units "w", units "pets.txt"],
    .file (Utf8.encode (units "cat\n# dog\n"))),
    ([units "w", units "far"], .directory),
    ([units "w", units "far", units "birds.TXT"], .file (Utf8.encode (units "wren\n")))], []⟩

/-- The pets are found again, and of the birds there is nothing. -/
theorem resolve_listed_of_aviary :
    aviaryFiles.Proper ∧ ofPath aviaryFiles (units "/w") = .ok ⟨[units "w"], [], none⟩ ∧
      (∀ names ∈ aviaryFiles.filesBelow [units "w"], ∀ name ∈ names, Glob.star ∉ name) ∧
      units "far/birds" ∈ (list aviaryFiles ⟨[units "w"], [], none⟩).1 ∧
      Collects aviaryFiles [units "w"] [] (units "pets") extension
        (Utf8.encode (units "cat\n# dog\n")) ∧
      (resolve aviaryFiles (units "pets") ⟨[units "w"], [], none⟩).1 = .ok [units "cat"] ∧
      Collects aviaryFiles [units "w"] [units "far"] (units "birds") (units ".TXT")
        (Utf8.encode (units "wren\n")) ∧
      (resolve aviaryFiles (units "far/birds") ⟨[units "w"], [], none⟩).1 = .ok [] := by
  have hproper : aviaryFiles.Proper := FileTree.proper_of_written
    [(units "/w/pets.txt", Utf8.encode (units "cat\n# dog\n")),
      (units "/w/far/birds.TXT", Utf8.encode (units "wren\n"))] rfl
  have hd : ofPath aviaryFiles (units "/w") = .ok ⟨[units "w"], [], none⟩ := rfl
  have hstar : ∀ names ∈ aviaryFiles.filesBelow [units "w"], ∀ name ∈ names, Glob.star ∉ name := by
    decide
  have hpets : Collects aviaryFiles [units "w"] [] (units "pets") extension
      (Utf8.encode (units "cat\n# dog\n")) :=
    ⟨by decide, by decide⟩
  have hbirds : Collects aviaryFiles [units "w"] [units "far"] (units "birds") (units ".TXT")
      (Utf8.encode (units "wren\n")) := ⟨by decide, by decide⟩
  obtain ⟨-, hlisted, -, hresolve⟩ := resolve_listed hproper hd hstar
  have hroot : [units "w"] ≠ [] := by decide
  refine ⟨hproper, hd, hstar, (hlisted _).2 ⟨_, _, _, _, hbirds, rfl⟩, hpets, ?_, hbirds, ?_⟩
  · refine ((hresolve _ _ _ _ hpets).2.1 hroot rfl).trans ?_
    decide +kernel
  · refine ((hresolve _ _ _ _ hbirds).2.2 hroot (by decide)).trans ?_
    decide +kernel

/-- Not every listed name leads back to its file: that of the birds does not. -/
theorem not_resolve_listed :
    ¬∀ (files : FileTree) (written : Text) (d : WildcardDirectory), files.Proper →
      ofPath files written = .ok d →
      (∀ names ∈ files.filesBelow d.base, ∀ name ∈ names, Glob.star ∉ name) →
      (list files d).1.Nodup ∧ ∀ front last ending bytes,
        Collects files d.base front last ending bytes →
        (resolve files (nameAt front last) d).1 = .ok (valuesOf (Utf8.decode bytes)) := by
  intro h
  obtain ⟨-, hresolve⟩ :=
    h aviaryFiles (units "/w") ⟨[units "w"], [], none⟩ (by decide) rfl (by decide)
  have hbirds :=
    hresolve [units "far"] (units "birds") (units ".TXT") (Utf8.encode (units "wren\n"))
    ⟨by decide, by decide⟩
  revert hbirds
  decide +kernel

end WildcardDirectory

end PromptTemplate
