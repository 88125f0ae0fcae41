import PhaseCheck.Artifact
import PhaseCheck.Unvisited

set_option autoImplicit false

namespace PhaseCheck

structure Loader (artifact : Artifact) where
  classes : List (LoadedClass artifact)
  log : List Event

abbrev LoaderM (artifact : Artifact) := EStateM CheckError (Loader artifact)

def isLibrary (libraries : List String) (name : ClassName) : Bool :=
  libraries.any name.isWithin

namespace Loader

variable {artifact : Artifact}

def empty : Loader artifact := ⟨[], []⟩

def note (loader : Loader artifact) (event : Event) : Loader artifact :=
  { loader with log := loader.log ++ [event] }

def keep (loader : Loader artifact) (loaded : LoadedClass artifact) : Loader artifact :=
  { loader with classes := loaded :: loader.classes }

def find? (loader : Loader artifact) (name : ClassName) : Option (LoadedClass artifact) :=
  loader.classes.find? (·.name = name)

def load (name : ClassName) : LoaderM artifact (LoadedClass artifact) := fun loader =>
  match loader.find? name with
  | some loaded => .ok loaded loader
  | none =>
    let loader := loader.note (.loading name)
    match decoded : artifact.decode name with
    | .error cause => .error cause loader
    | .ok file =>
      let loader := loader.note (.decoded file.name file.fields.length file.methods.length)
      if same : file.name = name then
        let loaded : LoadedClass artifact := ⟨file, Artifact.decode_name decoded same⟩
        .ok loaded (loader.keep loaded)
      else
        .error (.nameMismatch name file.name) loader

def loadOptional (libraries : List String) (name : ClassName) : LoaderM artifact (Option (LoadedClass artifact)) :=
  fun loader =>
    if isLibrary libraries name then
      .ok none loader
    else
      match load name loader with
      | .ok loaded loader => .ok (some loaded) loader
      | .error (.missingClass missing) loader => .ok none (loader.note (.absent missing))
      | .error cause loader => .error cause loader

/-- Superclasses above a class, nearest first, where `seen` are the names already passed. The class need not belong to
the artifact. -/
def climb (libraries : List String) (seen : List ClassName) (file : ClassFile) :
    LoaderM artifact (List (LoadedClass artifact)) :=
  match _next : file.superclass with
  | none => return []
  | some name =>
    if _new : name ∈ seen then
      throw (.cyclicHierarchy name)
    else do
      match ← loadOptional libraries name with
      | none => return []
      | some above => return above :: (← climb libraries (name :: seen) above.file)
-- Only the class where it starts can have supertypes that no class of the artifact has.
termination_by 2 * unvisited artifact.supertypes seen + if artifact.covers file then 0 else 1
decreasing_by
  have fewer : unvisited artifact.supertypes (name :: seen) ≤ unvisited artifact.supertypes seen := unvisited_cons_le
  rw [if_pos above.covered]
  split
  · rename_i covered
    have known : name ∈ artifact.supertypes := covered name (by simp [ClassFile.supertypes, _next])
    have := unvisited_cons_lt known _new
    omega
  · omega

def superclassesOf (libraries : List String) (file : ClassFile) : LoaderM artifact (List (LoadedClass artifact)) :=
  climb libraries [file.name] file

def superclasses (libraries : List String) (loaded : LoadedClass artifact) :
    LoaderM artifact (List (LoadedClass artifact)) :=
  superclassesOf libraries loaded.file

end Loader

end PhaseCheck
