import PhaseCheck.Files.Path
import PhaseCheck.Report

set_option autoImplicit false

namespace PhaseCheck

inductive FileTree where
  -- A file that is there but cannot be read has no content.
  | file (content : Option (List UInt8))
  | directory (entries : List (String × FileTree))

namespace FileTree

mutual

def files : FileTree → List (List String × Option (List UInt8))
  | .file content => [([], content)]
  | .directory entries => entryFiles entries

def entryFiles : List (String × FileTree) → List (List String × Option (List UInt8))
  | [] => []
  | (name, tree) :: rest => tree.files.map (fun (path, content) => (name :: path, content)) ++ entryFiles rest

end

def contents (tree : FileTree) : List (List UInt8) :=
  tree.files.filterMap Prod.snd

def child? (name : String) : List (String × FileTree) → Option FileTree
  | [] => none
  | (first, tree) :: rest => if first = name then some tree else child? name rest

def changeEntry (name : String) (change : FileTree → FileTree) :
    List (String × FileTree) → List (String × FileTree)
  | [] => [(name, change (.directory []))]
  | (first, tree) :: rest =>
    if first = name then (first, change tree) :: rest else (first, tree) :: changeEntry name change rest

-- Puts a tree at the end of some names and makes directories on the way. A directory that is put where one is already
-- leaves it as it is.
def insert (added : FileTree) : List String → FileTree → FileTree
  | [], tree =>
    match added, tree with
    | .directory [], .directory entries => .directory entries
    | _, _ => added
  | name :: path, .directory entries => .directory (changeEntry name (insert added path) entries)
  | name :: path, .file _ => .directory [(name, insert added path (.directory []))]

-- Follows the pieces of a path through directories. The directories above the tree are needed to go back up; above
-- the topmost one is itself.
def follow : List FileTree → FileTree → List String → Option FileTree
  | _, tree, [] => some tree
  | _, .file _, _ :: _ => none
  | above, .directory entries, piece :: rest =>
    if piece = "" ∨ piece = "." then
      follow above (.directory entries) rest
    else if piece = ".." then
      match above with
      | [] => follow [] (.directory entries) rest
      | parent :: above => follow above parent rest
    else
      match child? piece entries with
      | none => none
      | some tree => follow (.directory entries :: above) tree rest

theorem contents_of_entry {name : String} {entries : List (String × FileTree)} {tree : FileTree}
    (found : child? name entries = some tree) : tree.contents ⊆ (directory entries).contents := by
  induction entries with
  | nil => simp [child?] at found
  | cons entry rest ih =>
    obtain ⟨first, other⟩ := entry
    intro content present
    simp only [contents, files, entryFiles, List.filterMap_append, List.filterMap_map, List.mem_append]
    simp only [child?] at found
    split at found
    · left
      simp only [Option.some.injEq] at found
      subst found
      simpa [contents, Function.comp_def] using present
    · right
      simpa [contents, files] using ih found present

theorem contents_of_follow {whole : FileTree} {above : List FileTree} {tree found : FileTree} {pieces : List String}
    (inside : ∀ part ∈ tree :: above, part.contents ⊆ whole.contents)
    (followed : follow above tree pieces = some found) : found.contents ⊆ whole.contents := by
  induction pieces generalizing above tree with
  | nil =>
    simp only [follow, Option.some.injEq] at followed
    exact followed ▸ inside tree (List.mem_cons_self ..)
  | cons piece rest ih =>
    cases tree with
    | file content => simp [follow] at followed
    | directory entries =>
      simp only [follow] at followed
      split at followed
      · exact ih inside followed
      · split at followed
        · cases above with
          | nil => exact ih inside followed
          | cons parent higher =>
            exact ih (fun part present => inside part (List.mem_cons_of_mem _ present)) followed
        · split at followed
          · simp at followed
          · rename_i child descended
            refine ih (fun part present => ?_) followed
            rcases List.mem_cons.mp present with same | higher
            · subst same
              exact List.Subset.trans (contents_of_entry descended) (inside _ (List.mem_cons_self ..))
            · exact inside part higher

end FileTree

structure FileSystem where
  root : FileTree
  workingDirectory : List String

namespace FileSystem

def resolve (system : FileSystem) (path : Path) : Option FileTree :=
  if path.isEmpty then
    none
  else if path.isAbsolute then
    FileTree.follow [] system.root path.pieces
  else
    FileTree.follow [] system.root (system.workingDirectory ++ path.pieces)

-- The content of a file. What is missing at a path without a file is for the caller to say.
def read (system : FileSystem) (path : Path) (missing : CheckError) : Except CheckError (List UInt8) :=
  match system.resolve path with
  | some (.file (some content)) => .ok content
  | some (.file none) => .error .unreadable
  | _ => .error missing

def contents (system : FileSystem) : List (List UInt8) :=
  system.root.contents

theorem read_mem {system : FileSystem} {path : Path} {missing : CheckError} {content : List UInt8}
    (found : system.read path missing = .ok content) : content ∈ system.contents := by
  have follows {pieces : List String} (followed : FileTree.follow [] system.root pieces = some (.file (some content))) :
      content ∈ system.contents :=
    FileTree.contents_of_follow (by simp) followed (by simp [FileTree.contents, FileTree.files])
  unfold read at found
  split at found
  · rename_i other resolved
    cases found
    unfold resolve at resolved
    split at resolved
    · simp at resolved
    · split at resolved <;> exact follows resolved
  · cases found
  · cases found

end FileSystem

end PhaseCheck
