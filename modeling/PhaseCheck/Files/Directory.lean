import PhaseCheck.Artifact
import PhaseCheck.Files.ClassList
import PhaseCheck.Files.Tree

set_option autoImplicit false

namespace PhaseCheck

structure Directory where
  system : FileSystem
  root : Path
  listed : Option (List ClassName)

namespace Directory

def extension : String := ".class"

-- Name of a class file without its extension, if it is the name of a class file. A name that would be a lone dot
-- keeps the dot of its extension.
def stem? (fileName : String) : Option String :=
  let stem := fileName.toList.take (fileName.length - extension.length)
  if stem ≠ [] ∧ fileName.toList = stem ++ extension.toList then
    some (if stem = ['.'] then ".." else String.ofList stem)
  else
    none

-- Modules and packages have descriptions that look like classes.
def isDescription (name : String) : Bool :=
  "module-info".toList.isSuffixOf name.toList || "package-info".toList.isSuffixOf name.toList

def className? (path : List String) : Option ClassName := do
  let stem ← stem? (← path.getLast?)
  let name := ".".intercalate (path.dropLast ++ [stem])
  if isDescription name then
    none
  else
    (ClassName.ofDotted name).toOption

-- Classes below a directory. Going through each directory by name gives the files in the order of the names on the
-- way to them.
def classNames (tree : FileTree) : List ClassName :=
  ((tree.files.map Prod.fst).mergeSort fun first second => !second.lex first).filterMap className?

def names (directory : Directory) : Except CheckError (List ClassName) :=
  match directory.listed with
  | some names => .ok names
  | none =>
    match directory.system.resolve directory.root with
    | some tree => .ok (classNames tree)
    | none => .error .unreadable

def classFilePath (directory : Directory) (name : ClassName) : Path :=
  directory.root.join ⟨name.toInternal ++ extension⟩

def toArtifact (directory : Directory) : Artifact where
  names := directory.names
  files := directory.system.contents
  file name := directory.system.read (directory.classFilePath name) (.missingClass name)
  file_mem := FileSystem.read_mem

def withList (directory : Directory) (path : Path) : Except CheckError Directory :=
  match directory.system.read path .unreadable with
  | .error cause => .error cause
  | .ok content => (ClassList.read path.text content).map fun names => { directory with listed := some names }

end Directory

end PhaseCheck
