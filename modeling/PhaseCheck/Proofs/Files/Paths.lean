import Mathlib.Data.List.Nodup
import PhaseCheck.Files.Tree

set_option autoImplicit false

namespace PhaseCheck

namespace Path

variable {separator : Char} {chars others : List Char}

theorem split_ne_nil (separator : Char) (chars : List Char) : split separator chars ≠ [] := by
  cases chars with
  | nil => exact List.cons_ne_nil _ _
  | cons c rest =>
    rw [split]
    split
    · exact List.cons_ne_nil _ _
    · split <;> exact List.cons_ne_nil _ _

theorem split_cons_of_ne {c : Char} (other : c ≠ separator) {first : List Char} {rest : List (List Char)}
    (divided : split separator chars = first :: rest) : split separator (c :: chars) = (c :: first) :: rest := by
  simp only [split, if_neg other, divided]

theorem split_append (separator : Char) (chars others : List Char) :
    split separator (chars ++ separator :: others) = split separator chars ++ split separator others := by
  induction chars with
  | nil => simp [split]
  | cons c rest ih =>
    by_cases same : c = separator
    · simp [split, same, ih]
    · obtain ⟨first, more, divided⟩ := List.exists_cons_of_ne_nil (split_ne_nil separator rest)
      rw [divided, List.cons_append] at ih
      rw [List.cons_append, split_cons_of_ne same ih, split_cons_of_ne same divided, List.cons_append]

theorem split_of_not_mem (absent : separator ∉ chars) : split separator chars = [chars] := by
  induction chars with
  | nil => rfl
  | cons c rest ih =>
    have other : c ≠ separator := fun same => absent (same ▸ List.mem_cons_self ..)
    exact split_cons_of_ne other (ih fun present => absent (List.mem_cons_of_mem _ present))

theorem not_mem_of_mem_split {piece : List Char} (present : piece ∈ split separator chars) : separator ∉ piece := by
  induction chars generalizing piece with
  | nil =>
    obtain rfl := List.mem_singleton.mp present
    exact List.not_mem_nil
  | cons c rest ih =>
    by_cases same : c = separator
    · rw [split, if_pos same] at present
      rcases List.mem_cons.mp present with rfl | later
      · exact List.not_mem_nil
      · exact ih later
    · obtain ⟨first, more, divided⟩ := List.exists_cons_of_ne_nil (split_ne_nil separator rest)
      rw [split_cons_of_ne same divided] at present
      rw [divided] at ih
      rcases List.mem_cons.mp present with rfl | later
      · exact List.not_mem_cons_of_ne_of_not_mem (Ne.symm same) (ih (List.mem_cons_self ..))
      · exact ih (List.mem_cons_of_mem _ later)

theorem split_intercalate {parts : List (List Char)} (nonempty : parts ≠ [])
    (whole : ∀ part ∈ parts, separator ∉ part) : split separator ([separator].intercalate parts) = parts := by
  induction parts with
  | nil => contradiction
  | cons part rest ih =>
    have here := split_of_not_mem (whole part (List.mem_cons_self ..))
    cases rest with
    | nil => rwa [List.intercalate_singleton]
    | cons next others =>
      have there := ih (List.cons_ne_nil _ _) fun other present => whole other (List.mem_cons_of_mem _ present)
      rw [List.intercalate_cons_cons, List.append_assoc, List.singleton_append, split_append, here, there,
        List.singleton_append]

theorem exists_split_suffix {suffix : List Char} (absent : separator ∉ suffix) (chars : List Char) :
    ∃ front last, split separator chars = front ++ [last] ∧
      split separator (chars ++ suffix) = front ++ [last ++ suffix] := by
  induction chars with
  | nil => exact ⟨[], [], rfl, split_of_not_mem absent⟩
  | cons c rest ih =>
    obtain ⟨front, last, plain, extended⟩ := ih
    by_cases same : c = separator
    · exact ⟨[] :: front, last, by simp [split, same, plain], by simp [split, same, extended]⟩
    · cases front with
      | nil => exact ⟨[], c :: last, split_cons_of_ne same plain, split_cons_of_ne same extended⟩
      | cons first more =>
        exact ⟨(c :: first) :: more, last, split_cons_of_ne same plain, split_cons_of_ne same extended⟩

theorem split_swapped {old new : Char} (absent : new ∉ chars) :
    split new (chars.map fun c => if c = old then new else c) = split old chars := by
  induction chars with
  | nil => rfl
  | cons c rest ih =>
    have later := ih fun present => absent (List.mem_cons_of_mem _ present)
    by_cases same : c = old
    · simp [split, same, later]
    · obtain ⟨first, more, divided⟩ := List.exists_cons_of_ne_nil (split_ne_nil old rest)
      have other : c ≠ new := fun same => absent (same ▸ List.mem_cons_self ..)
      rw [List.map_cons, if_neg same, split_cons_of_ne same divided]
      exact split_cons_of_ne other (later.trans divided)

end Path

structure IsFileName (name : String) : Prop where
  nonempty : name ≠ ""
  notHere : name ≠ "."
  notAbove : name ≠ ".."
  undivided : '/' ∉ name.toList

instance (name : String) : Decidable (IsFileName name) :=
  decidable_of_iff (name ≠ "" ∧ name ≠ "." ∧ name ≠ ".." ∧ '/' ∉ name.toList)
    ⟨fun ⟨nonempty, notHere, notAbove, undivided⟩ => ⟨nonempty, notHere, notAbove, undivided⟩,
      fun ⟨nonempty, notHere, notAbove, undivided⟩ => ⟨nonempty, notHere, notAbove, undivided⟩⟩

/-- A tree as it can stand on a disk: in each directory the names can be used, each of them once. -/
inductive FileTree.Proper : FileTree → Prop where
  | file (content : Option (List UInt8)) : Proper (.file content)
  | directory {entries : List (String × FileTree)} (named : ∀ entry ∈ entries, IsFileName entry.1)
      (distinct : (entries.map Prod.fst).Nodup) (inside : ∀ entry ∈ entries, entry.2.Proper) :
      Proper (.directory entries)

namespace FileTree

theorem entryFiles_eq (entries : List (String × FileTree)) :
    entryFiles entries = entries.flatMap fun entry => entry.2.files.map fun item => (entry.1 :: item.1, item.2) := by
  induction entries with
  | nil => rfl
  | cons entry rest ih => rw [entryFiles, ih, List.flatMap_cons]

theorem mem_files_directory {entries : List (String × FileTree)} {path : List String} {content : Option (List UInt8)} :
    (path, content) ∈ (directory entries).files ↔
      ∃ name tree rest, (name, tree) ∈ entries ∧ (rest, content) ∈ tree.files ∧ path = name :: rest := by
  rw [files, entryFiles_eq, List.mem_flatMap]
  constructor
  · rintro ⟨⟨name, tree⟩, listed, present⟩
    obtain ⟨⟨rest, other⟩, inside, same⟩ := List.mem_map.mp present
    cases same
    exact ⟨name, tree, rest, listed, inside, rfl⟩
  · rintro ⟨name, tree, rest, listed, inside, rfl⟩
    exact ⟨(name, tree), listed, List.mem_map.mpr ⟨(rest, content), inside, rfl⟩⟩

theorem child?_of_mem {entries : List (String × FileTree)} (distinct : (entries.map Prod.fst).Nodup) {name : String}
    {tree : FileTree} (listed : (name, tree) ∈ entries) : child? name entries = some tree := by
  induction entries with
  | nil => cases listed
  | cons entry rest ih =>
    obtain ⟨first, other⟩ := entry
    obtain ⟨new, remaining⟩ := List.nodup_cons.mp distinct
    rcases List.mem_cons.mp listed with same | later
    · cases same
      exact if_pos rfl
    · have differs : first ≠ name := fun same => new (List.mem_map.mpr ⟨_, later, same.symm⟩)
      exact (if_neg differs).trans (ih remaining later)

variable {tree found : FileTree} {path : List String} {content : Option (List UInt8)}

theorem Proper.isFileName (proper : tree.Proper) (present : (path, content) ∈ tree.files) :
    ∀ name ∈ path, IsFileName name := by
  induction proper generalizing path with
  | file other =>
    cases List.mem_singleton.mp present
    simp
  | directory named _ _ ih =>
    obtain ⟨name, tree, rest, listed, inside, rfl⟩ := mem_files_directory.mp present
    intro other among
    rcases List.mem_cons.mp among with rfl | later
    · exact named _ listed
    · exact ih _ listed inside other later

theorem Proper.follow_files (proper : tree.Proper) (present : (path, content) ∈ tree.files) (above : List FileTree) :
    follow above tree path = some (.file content) := by
  induction proper generalizing path above with
  | file other =>
    cases List.mem_singleton.mp present
    rfl
  | directory named distinct _ ih =>
    obtain ⟨name, tree, rest, listed, inside, rfl⟩ := mem_files_directory.mp present
    have usable := named _ listed
    have ordinary : ¬(name = "" ∨ name = ".") := not_or.mpr ⟨usable.nonempty, usable.notHere⟩
    simp only [follow, if_neg ordinary, if_neg usable.notAbove, child?_of_mem distinct listed]
    exact ih _ listed inside _

theorem Proper.paths_nodup (proper : tree.Proper) : (tree.files.map Prod.fst).Nodup := by
  induction proper with
  | file content => exact List.nodup_singleton _
  | @directory entries named distinct _ ih =>
    have paths (entry : String × FileTree) :
        (entry.2.files.map fun item => (entry.1 :: item.1, item.2)).map Prod.fst =
          (entry.2.files.map Prod.fst).map (entry.1 :: ·) := by
      rw [List.map_map, List.map_map]
      rfl
    simp only [files, entryFiles_eq, List.map_flatMap, paths]
    refine List.nodup_flatMap.mpr ⟨fun entry listed => ?_, ?_⟩
    · exact (ih entry listed).map List.cons_injective
    · -- Paths into different entries differ in their first name.
      refine (List.pairwise_map.mp distinct).imp fun differ path first second => ?_
      obtain ⟨_, _, rfl⟩ := List.mem_map.mp first
      obtain ⟨_, _, same⟩ := List.mem_map.mp second
      exact differ (List.cons.inj same).1.symm

-- A path that comes to a directory can be followed further, also if it is written with a slash at its end.
theorem follow_further {above : List FileTree} {way ending : List String} (slash : ending = [] ∨ ending = [""])
    (reached : follow above tree (way ++ ending) = some found) :
    ∃ higher, ∀ more, follow above tree (way ++ more) = follow higher found more := by
  induction way generalizing above tree with
  | nil =>
    refine ⟨above, fun more => ?_⟩
    rcases slash with rfl | rfl
    · cases reached
      rfl
    · cases tree with
      | file => cases reached
      | directory entries =>
        cases reached
        rfl
  | cons piece rest ih =>
    cases tree with
    | file => cases reached
    | directory entries =>
      simp only [List.cons_append, follow] at reached ⊢
      split at reached
      next skipped =>
        simp only [if_pos skipped]
        exact ih reached
      next ordinary =>
        simp only [if_neg ordinary]
        split at reached
        next up =>
          simp only [if_pos up]
          cases above with
          | nil => exact ih reached
          | cons parent higher => exact ih reached
        next down =>
          simp only [if_neg down]
          split at reached
          next => cases reached
          next => exact ih reached

end FileTree

namespace Path

theorem pieces_append (text other : String) : pieces ⟨text ++ "/" ++ other⟩ = pieces ⟨text⟩ ++ pieces ⟨other⟩ := by
  have chars : (text ++ "/" ++ other).toList = text.toList ++ '/' :: other.toList := by
    simp [String.toList_append]
  rw [pieces, chars, split_append, List.map_append]
  rfl

variable {base path : Path}

theorem join_eq (nonempty : base.isEmpty = false) (relative : path.isAbsolute = false) :
    base.join path = if base.text.toList.getLast? = some '/' then ⟨base.text ++ path.text⟩
      else ⟨base.text ++ "/" ++ path.text⟩ := by
  rw [join, relative, nonempty, Bool.or_self, if_neg Bool.false_ne_true]

theorem start_join (nonempty : base.isEmpty = false) (relative : path.isAbsolute = false) :
    (base.join path).isEmpty = false ∧ (base.join path).isAbsolute = base.isAbsolute := by
  rw [join_eq nonempty relative]
  simp only [isEmpty, isAbsolute] at nonempty ⊢
  cases chars : base.text.toList with
  | nil =>
    rw [chars] at nonempty
    cases nonempty
  | cons c rest => split <;> simp [chars]

-- Joining paths joins their pieces. An empty piece behind a slash at the end of the first is lost.
theorem exists_pieces_join (nonempty : base.isEmpty = false) (relative : path.isAbsolute = false) :
    ∃ way ending, (ending = [] ∨ ending = [""]) ∧ base.pieces = way ++ ending ∧
      (base.join path).pieces = way ++ path.pieces := by
  rw [join_eq nonempty relative]
  split
  next slash =>
    obtain ⟨front, chars⟩ := List.getLast?_eq_some_iff.mp slash
    have text : base.text = String.ofList front ++ "/" := by
      rw [← String.toList_inj, chars, String.toList_append, String.toList_ofList]
      rfl
    have whole : base.pieces = pieces ⟨String.ofList front⟩ ++ [""] := by
      have parts := pieces_append (String.ofList front) ""
      rw [← text, String.append_empty] at parts
      exact parts
    exact ⟨_, [""], .inr rfl, whole, by rw [text, pieces_append]⟩
  next => exact ⟨base.pieces, [], .inl rfl, (List.append_nil _).symm, pieces_append ..⟩

end Path

theorem FileSystem.resolve_join {system : FileSystem} {base path : Path} {tree : FileTree}
    (found : system.resolve base = some tree) (relative : path.isAbsolute = false) :
    ∃ above, system.resolve (base.join path) = FileTree.follow above tree path.pieces := by
  have nonempty : base.isEmpty = false := by
    unfold resolve at found
    split at found
    next => cases found
    next left => simpa using left
  obtain ⟨way, ending, slash, before, behind⟩ := Path.exists_pieces_join nonempty relative
  obtain ⟨left, start⟩ := Path.start_join nonempty relative
  simp only [resolve, nonempty, left, start, behind, Bool.false_eq_true, if_false] at found ⊢
  rw [before] at found
  split at found
  next absolute =>
    obtain ⟨above, further⟩ := FileTree.follow_further slash found
    exact ⟨above, by rw [if_pos absolute, further]⟩
  next below =>
    rw [← List.append_assoc] at found
    obtain ⟨above, further⟩ := FileTree.follow_further slash found
    exact ⟨above, by rw [if_neg below, ← List.append_assoc, further]⟩

end PhaseCheck
