import PhaseCheck.CommandLine.Arguments
import PhaseCheck.Files.Directory
import PhaseCheck.Verifier.Basic

set_option autoImplicit false

namespace PhaseCheck

structure Outcome where
  status : Nat
  output : String
  errors : String
deriving DecidableEq, Repr

inductive Color where
  | green | yellow

namespace Color

def code : Color → String
  | .green => "32"
  | .yellow => "33"

def paint (wanted : Bool) (color : Color) (text : String) : String :=
  if wanted then
    "\x1b[0m\x1b[1m\x1b[" ++ color.code ++ "m" ++ text ++ "\x1b[0m"
  else
    text

def isWanted (terminal : Option String) (turnedOff : Bool) : Bool :=
  terminal.isSome && terminal ≠ some "dumb" && !turnedOff

end Color

namespace Arguments

def settings (arguments : Arguments) : Except CheckError Settings := do
  let settings ← (Settings.default.withPackage (arguments.package.getD Settings.defaultPackage)).mapError
    .malformedName
  let marker ← match arguments.marker with
    | some marker => (ClassName.ofDotted marker).mapError .malformedName
    | none => .ok settings.marker
  return { settings with marker, checkCalls := arguments.checkCalls }

def directory (arguments : Arguments) (system : FileSystem) : Except CheckError Directory :=
  let directory : Directory := ⟨system, ⟨arguments.input⟩, none⟩
  match arguments.classList with
  | some path => directory.withList ⟨path⟩
  | none => .ok directory

end Arguments

namespace Outcome

def warningLine (colored : Bool) (message : String) : String :=
  Color.paint colored .yellow "warning" ++ ": " ++ message ++ "\n"

def warningLines (colored : Bool) (messages : List String) : String :=
  String.join (messages.map (warningLine colored))

def failed (colored : Bool) (messages : List String) (cause : CheckError) : Outcome :=
  ⟨1, "", warningLines colored messages ++ "Error: " ++ cause.describe ++ "\n"⟩

def finished (colored denyWarnings : Bool) (count : Nat) (messages : List String) : Outcome :=
  let color := if count = 0 then Color.green else .yellow
  let noun := if count = 1 then " warning reported\n" else " warnings reported\n"
  ⟨if 0 < count ∧ denyWarnings then 1 else 0, color.paint colored (toString count) ++ noun,
    warningLines colored messages⟩

-- Settings are judged before the list of classes is read.
def check (system : FileSystem) (colored : Bool) (arguments : Arguments) : Outcome :=
  match arguments.settings, arguments.directory system with
  | .error cause, _ => failed colored [] cause
  | .ok _, .error cause => failed colored [] cause
  | .ok settings, .ok directory =>
    match Verifier.verifyAll settings (Verifier.empty : Verifier directory.toArtifact) with
    | .ok count verifier => finished colored arguments.denyWarnings count verifier.messages
    | .error cause verifier => failed colored verifier.messages cause

def version : String := "Lifecycle phase checker 0.1.0\n"

def usage : String :=
  "Usage: [--class-list <FILE>] [--annotation-package <PKG>] [--override-annotation <CLASS>] [--check-calls] " ++
    "[--deny-warnings] <INPUT>\n"

def ofRequest (system : FileSystem) (colored : Bool) : Request → Outcome
  | .check arguments => check system colored arguments
  | .version => ⟨0, version, ""⟩
  | .help => ⟨0, usage, ""⟩
  | .misuse => ⟨2, "", usage⟩

end Outcome

end PhaseCheck
