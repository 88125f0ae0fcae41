import PhaseCheck.Hierarchy.Assignable

set_option autoImplicit false

namespace PhaseCheck

namespace LoadedClass

variable {artifact : Artifact}

def overridable (loaded : LoadedClass artifact) (method : Method) : List (DeclaredMethod artifact) :=
  loaded.methods.filter fun candidate => candidate.method.isVirtual && candidate.method.hasSameSignature method

end LoadedClass

namespace Loader

variable {artifact : Artifact}

-- Whether one result can stand for the other. Nothing can only stand for nothing.
def isResultAssignable (libraries : List String) : Option FieldType → Option FieldType → LoaderM artifact Bool
  | none, none => return true
  | some sub, some super => isAssignable libraries sub super
  | _, _ => return false

def isMostGeneral (libraries : List String) (candidates : List (DeclaredMethod artifact))
    (candidate : DeclaredMethod artifact) : LoaderM artifact Bool :=
  candidates.allM fun other => isResultAssignable libraries other.method.type.result candidate.method.type.result

-- The first candidate with the most general result. If none has it, the first candidate.
def mostGeneral (libraries : List String) (first : DeclaredMethod artifact)
    (others : List (DeclaredMethod artifact)) : LoaderM artifact (DeclaredMethod artifact) := do
  if others.isEmpty then
    return first
  else
    let found ← (first :: others).findM? (isMostGeneral libraries (first :: others))
    return found.getD first

def nearestOverridden (libraries : List String) (method : Method) :
    List (LoadedClass artifact) → LoaderM artifact (Option (DeclaredMethod artifact))
  | [] => return none
  | loaded :: rest =>
    match loaded.overridable method with
    | [] => nearestOverridden libraries method rest
    | first :: others => return some (← mostGeneral libraries first others)

-- The method that a method of some class overrides. The class need not belong to the artifact.
def findOverriddenOf (libraries : List String) (file : ClassFile) (method : Method) :
    LoaderM artifact (Option (DeclaredMethod artifact)) := do
  if method.isVirtual then
    nearestOverridden libraries method (← superclassesOf libraries file)
  else
    return none

def findOverridden (libraries : List String) (item : DeclaredMethod artifact) :
    LoaderM artifact (Option (DeclaredMethod artifact)) :=
  findOverriddenOf libraries item.owner.file item.method

end Loader

end PhaseCheck
