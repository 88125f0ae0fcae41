import PhaseCheck.Proofs.Files.Enumeration

set_option autoImplicit false

namespace PhaseCheck

namespace Path

inductive Component where
  | root
  | current
  | parent
  | entry (name : String)
deriving DecidableEq

def component? (piece : String) : Option Component :=
  if piece = "" ∨ piece = "." then none else if piece = ".." then some .parent else some (.entry piece)

-- Staying in a directory does count at the beginning of a path.
def origin (path : Path) : List Component :=
  if path.isAbsolute then [.root] else if path.pieces.head? = some "." then [.current] else []

def components (path : Path) : List Component :=
  path.origin ++ path.pieces.filterMap component?

/-- A path goes on where another one ends, and does not go up again. -/
def Below (path base : Path) : Prop :=
  ∃ further, path.components = base.components ++ further ∧ .parent ∉ further

theorem eq_nil_of_split {separator : Char} {chars : List Char} (single : split separator chars = [[]]) :
    chars = [] := by
  cases chars with
  | nil => rfl
  | cons c rest =>
    by_cases same : c = separator
    · rw [split, if_pos same] at single
      exact absurd (List.cons.inj single).2 (split_ne_nil separator rest)
    · obtain ⟨first, more, divided⟩ := List.exists_cons_of_ne_nil (split_ne_nil separator rest)
      rw [split_cons_of_ne same divided] at single
      cases single

variable {base path : Path}

theorem toList_pieces (path : Path) : path.pieces.map String.toList = split '/' path.text.toList := by
  rw [pieces, List.map_map]
  simp

theorem components_join_of_empty (empty : base.isEmpty = true) (relative : path.isAbsolute = false)
    (plain : "." ∉ path.pieces) :
    (base.join path).components = base.components ++ path.pieces.filterMap component? := by
  have nothing : base.components = [] := by
    have chars : base.text.toList = [] := List.isEmpty_iff.mp empty
    simp [components, origin, isAbsolute, pieces, chars, split, component?]
  have starts : path.origin = [] := by
    rw [origin, relative, if_neg Bool.false_ne_true, if_neg fun first => plain (List.mem_of_head? first)]
  rw [join, empty, Bool.or_true, if_pos rfl, nothing, components, starts]

theorem components_join (nonempty : base.isEmpty = false) (relative : path.isAbsolute = false) :
    (base.join path).components = base.components ++ path.pieces.filterMap component? := by
  obtain ⟨way, ending, slash, before, behind⟩ := exists_pieces_join nonempty relative
  have unread : ending.filterMap component? = [] := by
    rcases slash with rfl | rfl
    · rfl
    · decide
  -- Not even the first piece of the base is lost, so both start the same way.
  have started : way ≠ [] := by
    rintro rfl
    have divided := base.toList_pieces
    rw [before] at divided
    rcases slash with rfl | rfl
    · exact split_ne_nil _ _ divided.symm
    · have empty := eq_nil_of_split divided.symm
      rw [isEmpty, empty] at nonempty
      cases nonempty
  have starts : (base.join path).origin = base.origin := by
    obtain ⟨first, rest, rfl⟩ := List.exists_cons_of_ne_nil started
    rw [origin, origin, (start_join nonempty relative).2, before, behind]
    rfl
  rw [components, components, starts, before, behind, List.filterMap_append, List.filterMap_append, unread,
    List.append_nil, List.append_assoc]

theorem components_of_relative (nonempty : base.isEmpty = false) (relative : base.isAbsolute = false) :
    ∃ first rest, base.components = first :: rest ∧ first ≠ .root := by
  cases chars : base.text.toList with
  | nil =>
    rw [isEmpty, chars] at nonempty
    cases nonempty
  | cons c others =>
    have other : c ≠ '/' := fun same => by simp [isAbsolute, chars, same] at relative
    obtain ⟨first, more, divided⟩ := List.exists_cons_of_ne_nil (split_ne_nil '/' others)
    have pieces : base.pieces = String.ofList (c :: first) :: more.map String.ofList := by
      rw [Path.pieces, chars, split_cons_of_ne other divided, List.map_cons]
    have visible : String.ofList (c :: first) ≠ "" := fun same => by simpa using congrArg String.toList same
    generalize String.ofList (c :: first) = piece at pieces visible
    rw [components, origin, relative, pieces, if_neg Bool.false_ne_true, List.head?_cons]
    by_cases here : piece = "."
    · exact ⟨.current, _, by rw [if_pos (congrArg some here)]; rfl, by rintro ⟨⟩⟩
    · obtain ⟨step, taken, down⟩ : ∃ step, component? piece = some step ∧ step ≠ .root := by
        rw [component?, if_neg (not_or.mpr ⟨visible, here⟩)]
        split
        · exact ⟨.parent, rfl, by rintro ⟨⟩⟩
        · exact ⟨.entry piece, rfl, by rintro ⟨⟩⟩
      rw [if_neg fun same => here (Option.some.inj same), List.nil_append, List.filterMap_cons_some taken]
      exact ⟨step, _, rfl, down⟩

end Path

theorem FileTree.contents_of_descent {above : List FileTree} {tree found : FileTree} {pieces : List String}
    (level : ".." ∉ pieces) (followed : follow above tree pieces = some found) : found.contents ⊆ tree.contents := by
  induction pieces generalizing above tree with
  | nil =>
    cases followed
    exact List.Subset.refl _
  | cons piece rest ih =>
    obtain ⟨here, later⟩ := List.ne_and_not_mem_of_not_mem_cons level
    cases tree with
    | file content => cases followed
    | directory entries =>
      simp only [follow, if_neg here.symm] at followed
      split at followed
      next => exact ih later followed
      next =>
        split at followed
        next => cases followed
        next child descended => exact List.Subset.trans (ih later followed) (contents_of_entry descended)

namespace Directory

theorem ownPath_isAbsolute_iff (name : ClassName) :
    (ownPath name).isAbsolute = true ↔ name.text.toList.head? = some '.' := by
  obtain ⟨c, rest, chars⟩ := List.exists_cons_of_ne_nil name.nonempty
  have other : c ≠ '/' := fun same => name.dotted (by simp [chars, same])
  by_cases dot : c = '.'
  · simp [Path.isAbsolute, ownPath, ClassName.toInternal, ClassName.swap, chars, dot]
  · simp [Path.isAbsolute, ownPath, ClassName.toInternal, ClassName.swap, chars, dot, other]

theorem ne_dots_of_mem_pieces {name : ClassName} {piece : String} (present : piece ∈ (ownPath name).pieces) :
    piece ≠ "." ∧ piece ≠ ".." := by
  obtain ⟨way, stem, parts, pieces⟩ := exists_pieces_ownPath name
  rw [pieces] at present
  rcases List.mem_append.mp present with earlier | last
  · -- The dots of the name are all gone, since it is divided at them.
    have listed : piece.toList ∈ Path.split '.' name.text.toList := by
      rw [← parts]
      exact List.mem_map_of_mem (List.mem_append_left _ earlier)
    have clean := Path.not_mem_of_mem_split listed
    exact ⟨fun same => clean (by simp [same]), fun same => clean (by simp [same])⟩
  · -- The extension still has a dot, but also letters.
    obtain rfl := List.mem_singleton.mp last
    have long : 6 ≤ (stem ++ extension).toList.length := by
      rw [String.toList_append, List.length_append]
      exact Nat.le_add_left 6 _
    exact ⟨fun same => absurd (same ▸ long) (by decide), fun same => absurd (same ▸ long) (by decide)⟩

theorem parent_not_mem_ownPath (name : ClassName) :
    Path.Component.parent ∉ (ownPath name).pieces.filterMap Path.component? := by
  intro up
  obtain ⟨piece, present, step⟩ := List.mem_filterMap.mp up
  obtain ⟨_, notUp⟩ := ne_dots_of_mem_pieces present
  rw [Path.component?, if_neg notUp] at step
  split at step <;> cases step

variable {directory : Directory} {name : ClassName}

theorem below_of_relative (relative : (ownPath name).isAbsolute = false) :
    (directory.classFilePath name).Below directory.root := by
  refine ⟨(ownPath name).pieces.filterMap Path.component?, ?_, parent_not_mem_ownPath name⟩
  cases empty : directory.root.isEmpty with
  | false => exact Path.components_join empty relative
  | true => exact Path.components_join_of_empty empty relative fun dot => (ne_dots_of_mem_pieces dot).1 rfl

theorem content_of_relative (relative : (ownPath name).isAbsolute = false) {tree : FileTree} {content : List UInt8}
    (found : directory.system.resolve directory.root = some tree)
    (loaded : directory.toArtifact.file name = .ok content) : content ∈ tree.contents := by
  obtain ⟨above, resolved⟩ := FileSystem.resolve_join found relative
  rw [file_eq, FileSystem.read, resolved] at loaded
  split at loaded
  next other followed =>
    cases loaded
    have inside := FileTree.contents_of_descent (fun up => (ne_dots_of_mem_pieces up).2 rfl) followed
    exact inside (by simp [FileTree.contents, FileTree.files])
  next => cases loaded
  next => cases loaded

theorem classFilePath_of_absolute (absolute : (ownPath name).isAbsolute = true) :
    directory.classFilePath name = ownPath name := by
  change directory.root.join (ownPath name) = _
  rw [Path.join, absolute, Bool.true_or, if_pos rfl]

theorem not_below_of_absolute {path base : Path} (absolute : path.isAbsolute = true) (nonempty : base.isEmpty = false)
    (relative : base.isAbsolute = false) : ¬path.Below base := by
  rintro ⟨further, leads, _⟩
  obtain ⟨first, rest, steps, down⟩ := Path.components_of_relative nonempty relative
  rw [Path.components, Path.origin, if_pos absolute, steps] at leads
  exact down (List.cons.inj leads).1.symm

/-- Unless a name starts with a dot, its class file is looked for below the root, and what is loaded is a file of the tree
there. A dot at the start makes the path absolute: it is the same for every root, and below none that is relative. -/
theorem classFilePath_below_unless_leading_dot (directory : Directory) (name : ClassName) :
    (name.text.toList.head? ≠ some '.' →
      (directory.classFilePath name).Below directory.root ∧
      ∀ tree content, directory.system.resolve directory.root = some tree →
        directory.toArtifact.file name = .ok content → content ∈ tree.contents) ∧
    (name.text.toList.head? = some '.' →
      directory.classFilePath name = ownPath name ∧ (ownPath name).isAbsolute = true ∧
      .parent ∉ (ownPath name).components ∧
      (directory.root.isEmpty = false → directory.root.isAbsolute = false →
        ¬(directory.classFilePath name).Below directory.root)) := by
  constructor
  · intro plain
    have relative : (ownPath name).isAbsolute = false :=
      Bool.eq_false_iff.mpr fun absolute => plain ((ownPath_isAbsolute_iff name).mp absolute)
    exact ⟨below_of_relative relative, fun tree content => content_of_relative relative⟩
  · intro dot
    have absolute := (ownPath_isAbsolute_iff name).mpr dot
    have whole : directory.classFilePath name = ownPath name := classFilePath_of_absolute absolute
    refine ⟨whole, absolute, ?_, fun nonempty relative => whole ▸ not_below_of_absolute absolute nonempty relative⟩
    rw [Path.components, Path.origin, if_pos absolute]
    simp [parent_not_mem_ownPath name]

-- A directory `d` with nothing in it, and a class file next to it.
def bystander : Directory where
  system := ⟨.directory [("d", .directory []), ("J.class", .file (some [74]))], []⟩
  root := ⟨"d"⟩
  listed := none

def rootedClass : ClassName := ⟨".J", by decide, by decide⟩

-- A name with a dot at its start gets hold of a file outside of the directory.
theorem leading_dot_leaves_root :
    ClassName.ofDotted ".J" = .ok rootedClass ∧ ClassName.ofInternal "/J" = .ok rootedClass ∧
      bystander.classFilePath rootedClass = ⟨"/J.class"⟩ ∧
      ¬(bystander.classFilePath rootedClass).Below bystander.root ∧
      bystander.toArtifact.file rootedClass = .ok [74] := by
  have path : bystander.classFilePath rootedClass = ⟨"/J.class"⟩ := by decide +kernel
  refine ⟨rfl, rfl, path, ?_, by decide +kernel⟩
  rw [path]
  exact not_below_of_absolute (by decide) (by decide) (by decide)

end Directory

end PhaseCheck
