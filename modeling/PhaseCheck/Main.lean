import PhaseCheck.CommandLine.Outcome

set_option autoImplicit false

namespace PhaseCheck.Snapshot

-- A path has no more pieces than this, so directories nest no deeper.
def maxDepth : Nat := 4096

def readFile (path : String) : IO FileTree := do
  try
    return .file (some (← IO.FS.readBinFile path).toList)
  catch _ =>
    return .file none

-- A file, or a directory with what is below it up to some depth. A directory that cannot be listed is left out.
def read : Nat → String → IO (Option FileTree)
  | 0, _ => return none
  | depth + 1, path => do
    try
      let place ← IO.FS.realPath path
      if ← place.isDir then
        let entries ← (← place.readDir).toList.mapM fun item => do
          return (item.fileName, ← read depth item.path.toString)
        return some (.directory (entries.filterMap fun (name, tree) => tree.map fun tree => (name, tree)))
      else
        return some (← readFile place.toString)
    catch _ =>
      return none

def isDirectory (path : String) : IO Bool := do
  try
    (← IO.FS.realPath path).isDir
  catch _ =>
    return false

def absolute (names : List String) : String :=
  "/" ++ "/".intercalate names

def pass (system : FileSystem) (names : List String) : List String → IO (FileSystem × List String)
  | [] => return (system, names)
  | piece :: rest => do
    if piece = "" ∨ piece = "." then
      pass system names rest
    else if piece = ".." then
      pass system names.dropLast rest
    else
      let names := names ++ [piece]
      if ← isDirectory (absolute names) then
        pass { system with root := FileTree.insert (.directory []) names system.root } names rest
      else
        pass system names rest

def add (system : FileSystem) (path : Path) : IO FileSystem := do
  let start := if path.isAbsolute then [] else system.workingDirectory
  let (system, names) ← pass system start path.pieces
  match ← read maxDepth (absolute names) with
  | some tree => return { system with root := FileTree.insert tree names system.root }
  | none => return system

def ofRequest (request : Request) : IO FileSystem := do
  let here ← IO.currentDir
  let names := (Path.pieces ⟨here.toString⟩).filter (· ≠ "")
  let start : FileSystem := ⟨FileTree.insert (.directory []) names (.directory []), names⟩
  match request with
  | .check arguments =>
    (arguments.input :: arguments.classList.toList).foldlM (fun system path => add system ⟨path⟩) start
  | _ => return start

end PhaseCheck.Snapshot

open PhaseCheck in
def main (arguments : List String) : IO UInt32 := do
  let request := Request.ofArguments arguments
  let system ← Snapshot.ofRequest request
  let colored := Color.isWanted (← IO.getEnv "TERM") (← IO.getEnv "NO_COLOR").isSome
  let outcome := Outcome.ofRequest system colored request
  IO.eprint outcome.errors
  IO.print outcome.output
  return outcome.status.toUInt32
