import PhaseCheck.AnnotationTree

set_option autoImplicit false

namespace PhaseCheck

inductive Phase where
  | setup
  | flow
  | ignored
deriving DecidableEq, Repr

namespace Phase

def all : List Phase := [.setup, .flow, .ignored]

def text : Phase → String
  | .setup => "setup"
  | .flow => "flow"
  | .ignored => "ignored"

def simpleName : Phase → String
  | .setup => "SetupPhase"
  | .flow => "FlowPhase"
  | .ignored => "IgnoredPhase"

def nameIn (package : String) (phase : Phase) : Except NameError ClassName :=
  ClassName.ofDotted (if package.toList = [] then phase.simpleName else package ++ "." ++ phase.simpleName)

end Phase

structure Settings where
  setup : ClassName
  flow : ClassName
  ignored : ClassName
  marker : ClassName
  -- Starts of the names of classes that are never loaded.
  libraries : List String
  checkCalls : Bool

structure Declaration where
  phases : List Phase
  marked : Bool
deriving DecidableEq, Repr

namespace Settings

def defaultPackage : String := "ccre.verifier"

def default : Settings where
  setup := ⟨"ccre.verifier.SetupPhase", by decide, by decide⟩
  flow := ⟨"ccre.verifier.FlowPhase", by decide, by decide⟩
  ignored := ⟨"ccre.verifier.IgnoredPhase", by decide, by decide⟩
  marker := .overrideMarker
  libraries := ["java.", "javax.", "jdk.", "sun."]
  checkCalls := false

def withPackage (settings : Settings) (package : String) : Except NameError Settings := do
  let setup ← Phase.setup.nameIn package
  let flow ← Phase.flow.nameIn package
  let ignored ← Phase.ignored.nameIn package
  return { settings with setup, flow, ignored }

def typeFor (settings : Settings) : Phase → ClassName
  | .setup => settings.setup
  | .flow => settings.flow
  | .ignored => settings.ignored

def phaseOf (settings : Settings) (type : ClassName) : Option Phase :=
  Phase.all.find? fun phase => settings.typeFor phase = type

def declaration (settings : Settings) (notes : List AnnotationTree) : Declaration where
  phases := notes.filterMap fun note => settings.phaseOf note.type
  marked := notes.any fun note => note.type = settings.marker

end Settings

namespace Declaration

-- The phase that counts is the first one.
def phase (declaration : Declaration) : Option Phase :=
  declaration.phases.head?

end Declaration

end PhaseCheck
