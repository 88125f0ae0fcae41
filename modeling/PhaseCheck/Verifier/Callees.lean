import PhaseCheck.Code.Calls
import PhaseCheck.Hierarchy.Loader

set_option autoImplicit false

namespace PhaseCheck

namespace LoadedClass

variable {artifact : Artifact}

def find? (loaded : LoadedClass artifact) (reference : MethodRef) : Option (DeclaredMethod artifact) :=
  loaded.methods.find? fun item =>
    item.method.name = reference.name ∧ item.method.type = reference.type

end LoadedClass

namespace Loader

variable {artifact : Artifact}

def resolve (libraries : List String) (caller : MethodKey) (reference : MethodRef) :
    LoaderM artifact (Option (DeclaredMethod artifact)) := do
  match ← loadOptional libraries reference.owner with
  | none =>
    modify (·.note (.outsideCall caller reference.owner))
    return none
  | some loaded =>
    let above ← superclasses libraries loaded
    match (loaded :: above).findSome? (·.find? reference) with
    | some callee => return some callee
    | none =>
      modify (·.note (.unresolvedCall caller reference.owner reference.name))
      return none

def callees (settings : Settings) (item : DeclaredMethod artifact) :
    LoaderM artifact (List (DeclaredMethod artifact)) := do
  match settings.checkCalls, item.method.body with
  | true, some body =>
    match body.calls item.owner.file.pool with
    | .error cause => throw (.badClass item.owner.name cause)
    | .ok references =>
      let found ← references.mapM (resolve settings.libraries item.key)
      return found.filterMap id
  | _, _ => return []

end Loader

end PhaseCheck
