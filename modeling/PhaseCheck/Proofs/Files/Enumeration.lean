import PhaseCheck.Files.Directory
import PhaseCheck.Proofs.Descriptor.Exactness
import PhaseCheck.Proofs.Files.Paths
import PhaseCheck.Proofs.Steps

set_option autoImplicit false

namespace PhaseCheck

namespace ClassName

theorem split_toInternal (name : ClassName) :
    Path.split '/' name.toInternal.toList = Path.split '.' name.text.toList := by
  rw [toInternal, swap, String.toList_ofList]
  exact Path.split_swapped name.dotted

end ClassName

namespace Directory

theorem stem?_eq_some {fileName stem : String} (made : stem? fileName = some stem) :
    ∃ chars, fileName.toList = chars ++ extension.toList ∧
      stem = if chars = ['.'] then ".." else String.ofList chars := by
  simp only [stem?] at made
  split at made
  next kept => exact ⟨_, kept.2, (Option.some.inj made).symm⟩
  next => cases made

theorem className?_eq_some {path : List String} {name : ClassName} (made : className? path = some name) :
    ∃ way fileName stem, path = way ++ [fileName] ∧ stem? fileName = some stem ∧
      name.text = ".".intercalate (way ++ [stem]) := by
  obtain ⟨fileName, last, made⟩ := Option.bind_eq_some_iff.mp made
  obtain ⟨stem, taken, made⟩ := Option.bind_eq_some_iff.mp made
  simp only at made
  split at made
  next => cases made
  next =>
    obtain ⟨front, rfl⟩ := List.getLast?_eq_some_iff.mp last
    rw [List.dropLast_concat] at made
    exact ⟨front, fileName, stem, rfl, taken, ClassName.ofDotted_ok (ok_of_toOption made)⟩

def Undotted (path : List String) : Prop :=
  ∃ way stem, path = way ++ [stem ++ extension] ∧ ∀ part ∈ way ++ [stem], '.' ∉ part.toList

variable {path : List String} {name : ClassName}

def ownPath (name : ClassName) : Path :=
  ⟨name.toInternal ++ extension⟩

theorem exists_pieces_ownPath (name : ClassName) :
    ∃ way stem, (way ++ [stem]).map String.toList = Path.split '.' name.text.toList ∧
      (ownPath name).pieces = way ++ [stem ++ extension] := by
  have absent : '/' ∉ extension.toList := by decide
  obtain ⟨front, last, plain, extended⟩ := Path.exists_split_suffix absent name.toInternal.toList
  refine ⟨front.map String.ofList, String.ofList last, ?_, ?_⟩
  · rw [← name.split_toInternal, plain, List.map_append, List.map_map]
    simp
  · rw [ownPath, Path.pieces, String.toList_append, extended, List.map_append, List.map_singleton,
      String.ofList_append, String.ofList_toList]

theorem undotted_of_pieces {name : ClassName} (back : (ownPath name).pieces = path) : Undotted path := by
  obtain ⟨way, stem, parts, pieces⟩ := exists_pieces_ownPath name
  refine ⟨way, stem, back.symm.trans pieces, fun part present => ?_⟩
  have piece : part.toList ∈ Path.split '.' name.text.toList := parts ▸ List.mem_map_of_mem present
  exact Path.not_mem_of_mem_split piece

theorem stem?_of_undotted {stem other : String} (taken : stem? (stem ++ extension) = some other)
    (clean : '.' ∉ stem.toList) : other = stem := by
  obtain ⟨chars, same, rfl⟩ := stem?_eq_some taken
  rw [String.toList_append] at same
  obtain rfl := List.append_cancel_right same
  rw [if_neg fun dot => clean (by simp [dot]), String.ofList_toList]

theorem pieces_of_undotted (made : className? path = some name) (undotted : Undotted path) :
    (ownPath name).pieces = path := by
  obtain ⟨way, stem, rfl, clean⟩ := undotted
  obtain ⟨front, fileName, other, split, taken, text⟩ := className?_eq_some made
  obtain ⟨rfl, same⟩ := List.append_inj' split rfl
  obtain rfl := (List.cons.inj same).1
  obtain rfl := stem?_of_undotted taken (clean stem (by simp))
  have parts : Path.split '.' name.text.toList = (way ++ [other]).map String.toList := by
    rw [text, String.toList_intercalate]
    refine Path.split_intercalate (by simp) fun part present => ?_
    obtain ⟨piece, listed, rfl⟩ := List.mem_map.mp present
    exact clean piece listed
  obtain ⟨front, stem, divided, pieces⟩ := exists_pieces_ownPath name
  have whole : front ++ [stem] = way ++ [other] :=
    List.map_injective_iff.mpr (fun _ _ => String.toList_inj.mp) (divided.trans parts)
  obtain ⟨rfl, last⟩ := List.append_inj' whole rfl
  obtain rfl := (List.cons.inj last).1
  exact pieces

/-- A file of a tree that is taken for the file of a class. -/
structure Enumerates (tree : FileTree) (path : List String) (content : Option (List UInt8)) (name : ClassName) : Prop where
  present : (path, content) ∈ tree.files
  named : className? path = some name

variable {tree : FileTree} {content : Option (List UInt8)}

theorem mem_classNames : name ∈ classNames tree ↔ ∃ path content, Enumerates tree path content name := by
  rw [classNames, List.mem_filterMap]
  constructor
  · rintro ⟨_, sorted, named⟩
    obtain ⟨⟨path, content⟩, present, rfl⟩ := List.mem_map.mp (List.mem_mergeSort.mp sorted)
    exact ⟨path, content, present, named⟩
  · rintro ⟨path, content, present, named⟩
    exact ⟨path, List.mem_mergeSort.mpr (List.mem_map_of_mem present), named⟩

theorem classNames_nodup (proper : tree.Proper)
    (undotted : ∀ path content name, Enumerates tree path content name → Undotted path) : (classNames tree).Nodup := by
  have paths : ((tree.files.map Prod.fst).mergeSort fun first second => !second.lex first).Nodup :=
    (List.mergeSort_perm _ _).nodup_iff.mpr proper.paths_nodup
  have back {path : List String} {name : ClassName}
      (sorted : path ∈ (tree.files.map Prod.fst).mergeSort fun first second => !second.lex first)
      (named : className? path = some name) : (ownPath name).pieces = path := by
    obtain ⟨⟨_, content⟩, present, rfl⟩ := List.mem_map.mp (List.mem_mergeSort.mp sorted)
    exact pieces_of_undotted named (undotted _ content name ⟨present, named⟩)
  refine List.pairwise_filterMap.mpr (paths.imp_of_mem ?_)
  rintro first second firstSorted secondSorted differ name firstNamed _ secondNamed rfl
  exact differ ((back firstSorted firstNamed).symm.trans (back secondSorted secondNamed))

theorem ownPath_relative (proper : tree.Proper) (present : (path, content) ∈ tree.files)
    (back : (ownPath name).pieces = path) : (ownPath name).isAbsolute = false := by
  by_contra absolute
  have starts : (ownPath name).text.toList.head? = some '/' := by simpa [Path.isAbsolute] using absolute
  obtain ⟨rest, chars⟩ := List.head?_eq_some_iff.mp starts
  -- The piece in front of the first slash is empty, and no name in a directory is.
  have first : "" ∈ path := by
    rw [← back, Path.pieces, chars, Path.split]
    exact List.mem_cons_self ..
  exact (proper.isFileName present _ first).nonempty rfl

theorem file_eq (directory : Directory) (name : ClassName) :
    directory.toArtifact.file name =
      directory.system.read (directory.root.join (ownPath name)) (.missingClass name) := by
  simp only [toArtifact, classFilePath, ownPath]

theorem file_of_undotted {directory : Directory} (found : directory.system.resolve directory.root = some tree)
    (proper : tree.Proper) (enumerated : Enumerates tree path content name) (undotted : Undotted path) :
    directory.toArtifact.file name = content.elim (.error .unreadable) .ok := by
  have back := pieces_of_undotted enumerated.named undotted
  obtain ⟨above, resolved⟩ := FileSystem.resolve_join found (ownPath_relative proper enumerated.present back)
  rw [back, proper.follow_files enumerated.present] at resolved
  rw [file_eq, FileSystem.read, resolved]
  cases content <;> rfl

theorem names_of_unlisted {directory : Directory} (unlisted : directory.listed = none)
    (found : directory.system.resolve directory.root = some tree) : directory.names = .ok (classNames tree) := by
  simp only [names, unlisted, found]

/-- Without a list, a directory names the classes of all its class files. A name leads back along the path that it was
made from just if nothing on that path but the extension has a dot, and then it loads that file. So if there are no other
dots, no name comes twice and every one of them can be loaded. -/
theorem names_found_unless_dotted (directory : Directory) (tree : FileTree) (unlisted : directory.listed = none)
    (found : directory.system.resolve directory.root = some tree) (proper : tree.Proper) :
    ∃ names, directory.names = .ok names ∧
      (∀ name, name ∈ names ↔ ∃ path content, Enumerates tree path content name) ∧
      (∀ path content name, Enumerates tree path content name →
        ((ownPath name).pieces = path ↔ Undotted path) ∧
        (Undotted path → directory.toArtifact.file name = content.elim (.error .unreadable) .ok)) ∧
      ((∀ path content name, Enumerates tree path content name → Undotted path) →
        names.Nodup ∧ ∀ name ∈ names, directory.toArtifact.file name ≠ .error (.missingClass name)) := by
  refine ⟨classNames tree, names_of_unlisted unlisted found, fun name => mem_classNames,
    fun path content name enumerated => ?_, fun undotted => ?_⟩
  · exact ⟨⟨undotted_of_pieces, pieces_of_undotted enumerated.named⟩, file_of_undotted found proper enumerated⟩
  · refine ⟨classNames_nodup proper undotted, fun name present missing => ?_⟩
    obtain ⟨path, content, enumerated⟩ := mem_classNames.mp present
    rw [file_of_undotted found proper enumerated (undotted path content name enumerated)] at missing
    cases content <;> cases missing

-- A directory `d` with some entries, and nothing else.
def holding (entries : List (String × FileTree)) : Directory where
  system := ⟨.directory [("d", .directory entries)], []⟩
  root := ⟨"d"⟩
  listed := none

theorem resolve_holding (entries : List (String × FileTree)) :
    (holding entries).system.resolve (holding entries).root = some (.directory entries) := by
  have pieces : Path.pieces ⟨"d"⟩ = ["d"] := by decide
  simp [FileSystem.resolve, holding, Path.isEmpty, Path.isAbsolute, pieces, FileTree.follow, FileTree.child?]

def packages : List (String × FileTree) :=
  [("q", .directory [("V.class", .file (some [7]))]), ("package-info.class", .file none)]

theorem packages_proper : (FileTree.directory packages).Proper := by
  refine .directory (by decide) (by decide) fun entry listed => ?_
  simp only [packages, List.mem_cons, List.not_mem_nil, or_false] at listed
  rcases listed with rfl | rfl
  · exact .directory (by decide) (by decide) (by simp [FileTree.Proper.file])
  · exact .file _

def packagedName : ClassName := ⟨"q.V", by decide, by decide⟩

theorem files_packages :
    (FileTree.directory packages).files = [(["q", "V.class"], some [7]), (["package-info.class"], none)] := by
  simp [packages, FileTree.files, FileTree.entryFiles]

theorem className?_packaged : className? ["q", "V.class"] = some packagedName := by
  decide +kernel

theorem className?_description : className? ["package-info.class"] = none := by
  decide +kernel

theorem names_found_unless_dotted_packages :
    ∃ names, (holding packages).names = .ok names ∧ packagedName ∈ names ∧ names.Nodup ∧
      (holding packages).toArtifact.file packagedName = .ok [7] ∧
      ∀ name ∈ names, (holding packages).toArtifact.file name ≠ .error (.missingClass name) := by
  obtain ⟨names, made, members, each, all⟩ :=
    names_found_unless_dotted (holding packages) (.directory packages) rfl (resolve_holding packages) packages_proper
  have enumerated : Enumerates (.directory packages) ["q", "V.class"] (some [7]) packagedName :=
    ⟨by simp [files_packages], className?_packaged⟩
  have undotted : Undotted ["q", "V.class"] := ⟨["q"], "V", rfl, by decide⟩
  obtain ⟨distinct, loaded⟩ := all fun path content name other => by
    have present := other.present
    simp only [files_packages, List.mem_cons, Prod.mk.injEq, List.not_mem_nil, or_false] at present
    rcases present with ⟨rfl, rfl⟩ | ⟨rfl, rfl⟩
    · exact undotted
    · have named := other.named
      rw [className?_description] at named
      cases named
  exact ⟨names, made, (members _).mpr ⟨_, _, enumerated⟩, distinct, (each _ _ _ enumerated).2 undotted, loaded⟩

def dottedName : ClassName := ⟨"a.b", by decide, by decide⟩

def loneEntries : List (String × FileTree) := [("a.b.class", .file (some []))]

def twinEntries : List (String × FileTree) :=
  [("a", .directory [("b.class", .file (some []))]), ("a.b.class", .file (some []))]

-- Sorting is not something that can be evaluated here, but it does nothing to these entries.
theorem classNames_of_sorted (sorted : (tree.files.map Prod.fst).Pairwise fun first second => !second.lex first) :
    classNames tree = (tree.files.map Prod.fst).filterMap className? := by
  rw [classNames, List.mergeSort_of_pairwise sorted]

-- A dot in the name of a file is taken for the end of a package. The class is then named, but not found, and its name
-- may be that of another class.
theorem dotted_names_mistaken :
    ((FileTree.directory loneEntries).Proper ∧ (holding loneEntries).listed = none ∧
      (holding loneEntries).names = .ok [dottedName] ∧
      (holding loneEntries).toArtifact.file dottedName = .error (.missingClass dottedName)) ∧
    (FileTree.directory twinEntries).Proper ∧ (holding twinEntries).listed = none ∧
      (holding twinEntries).names = .ok [dottedName, dottedName] := by
  refine ⟨⟨?_, rfl, ?_, ?_⟩, ?_, rfl, ?_⟩
  · exact .directory (by decide) (by decide) (by simp [loneEntries, FileTree.Proper.file])
  · rw [names_of_unlisted rfl (resolve_holding loneEntries), classNames_of_sorted (by decide +kernel)]
    exact congrArg Except.ok (by decide +kernel)
  · decide +kernel
  · refine .directory (by decide) (by decide) ?_
    simp only [twinEntries, List.forall_mem_cons, List.not_mem_nil, false_imp_iff, implies_true, and_true]
    exact ⟨.directory (by decide) (by decide) (by simp [FileTree.Proper.file]), .file _⟩
  · rw [names_of_unlisted rfl (resolve_holding twinEntries), classNames_of_sorted (by decide +kernel)]
    exact congrArg Except.ok (by decide +kernel)

end Directory

end PhaseCheck
