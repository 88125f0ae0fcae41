import PhaseCheck.ClassFile
import PhaseCheck.Report

set_option autoImplicit false

namespace PhaseCheck

structure Artifact where
  names : Except CheckError (List ClassName)
  files : List (List UInt8)
  file : ClassName → Except CheckError (List UInt8)
  file_mem : ∀ {name bytes}, file name = .ok bytes → bytes ∈ files

namespace Artifact

def decode (artifact : Artifact) (name : ClassName) : Except CheckError ClassFile :=
  match artifact.file name with
  | .error cause => .error cause
  | .ok bytes => (ClassFile.decode bytes).mapError (.badClass name)

theorem decode_name {artifact : Artifact} {name : ClassName} {file : ClassFile}
    (decoded : artifact.decode name = .ok file) (same : file.name = name) : artifact.decode file.name = .ok file :=
  same ▸ decoded

def classes (artifact : Artifact) : List ClassFile :=
  artifact.files.filterMap fun bytes => (ClassFile.decode bytes).toOption

theorem mem_classes_of_decode {artifact : Artifact} {name : ClassName} {file : ClassFile}
    (decoded : artifact.decode name = .ok file) : file ∈ artifact.classes := by
  unfold decode at decoded
  split at decoded
  · simp at decoded
  · rename_i bytes found
    refine List.mem_filterMap.mpr ⟨bytes, artifact.file_mem found, ?_⟩
    cases result : ClassFile.decode bytes with
    | error cause => rw [result] at decoded; cases decoded
    | ok other => rw [result] at decoded; cases decoded; rfl

def supertypes (artifact : Artifact) : List ClassName :=
  artifact.classes.flatMap ClassFile.supertypes

def covers (artifact : Artifact) (file : ClassFile) : Prop :=
  ∀ name ∈ file.supertypes, name ∈ artifact.supertypes

instance (artifact : Artifact) (file : ClassFile) : Decidable (artifact.covers file) :=
  inferInstanceAs (Decidable (∀ name ∈ file.supertypes, name ∈ artifact.supertypes))

def methodKeys (artifact : Artifact) : List MethodKey :=
  artifact.classes.flatMap fun file => file.methods.map Method.key

end Artifact

structure LoadedClass (artifact : Artifact) where
  file : ClassFile
  decoded : artifact.decode file.name = .ok file

namespace LoadedClass

variable {artifact : Artifact}

def name (loaded : LoadedClass artifact) : ClassName :=
  loaded.file.name

theorem covered (loaded : LoadedClass artifact) : artifact.covers loaded.file :=
  fun _ direct => List.mem_flatMap.mpr ⟨loaded.file, Artifact.mem_classes_of_decode loaded.decoded, direct⟩

end LoadedClass

structure DeclaredMethod (artifact : Artifact) where
  owner : LoadedClass artifact
  method : Method
  declared : method ∈ owner.file.methods

namespace DeclaredMethod

variable {artifact : Artifact}

def key (item : DeclaredMethod artifact) : MethodKey :=
  item.method.key

theorem key_mem (item : DeclaredMethod artifact) : item.key ∈ artifact.methodKeys :=
  List.mem_flatMap.mpr ⟨item.owner.file, Artifact.mem_classes_of_decode item.owner.decoded,
    List.mem_map.mpr ⟨item.method, item.declared, rfl⟩⟩

def annotations (item : DeclaredMethod artifact) : Except FormatError (List AnnotationTree) :=
  AnnotationTree.ofAttributes item.owner.file.pool item.method.attributes

end DeclaredMethod

namespace LoadedClass

variable {artifact : Artifact}

def methods (loaded : LoadedClass artifact) : List (DeclaredMethod artifact) :=
  loaded.file.methods.attach.map fun ⟨method, declared⟩ => ⟨loaded, method, declared⟩

end LoadedClass

structure ClassStore where
  entries : List (ClassName × List UInt8)

namespace ClassStore

def empty : ClassStore := ⟨[]⟩

def insertEntry (name : ClassName) (bytes : List UInt8) :
    List (ClassName × List UInt8) → List (ClassName × List UInt8)
  | [] => [(name, bytes)]
  | (first, content) :: rest =>
    if name = first then (name, bytes) :: rest
    else if name.text < first.text then (name, bytes) :: (first, content) :: rest
    else (first, content) :: insertEntry name bytes rest

def insert (store : ClassStore) (name : ClassName) (bytes : List UInt8) : ClassStore :=
  ⟨insertEntry name bytes store.entries⟩

def size (store : ClassStore) : Nat :=
  store.entries.length

def isEmpty (store : ClassStore) : Bool :=
  store.entries.isEmpty

def get? (store : ClassStore) (name : ClassName) : Option (List UInt8) :=
  (store.entries.find? (·.1 = name)).map Prod.snd

def toArtifact (store : ClassStore) : Artifact where
  names := .ok (store.entries.map Prod.fst)
  files := store.entries.map Prod.snd
  file name :=
    match store.get? name with
    | none => .error (.missingClass name)
    | some bytes => .ok bytes
  file_mem := by
    intro name bytes found
    split at found
    · cases found
    · rename_i other held
      cases found
      obtain ⟨entry, present, same⟩ := Option.map_eq_some_iff.mp held
      exact List.mem_map.mpr ⟨entry, List.mem_of_find?_eq_some present, same⟩

end ClassStore

end PhaseCheck
