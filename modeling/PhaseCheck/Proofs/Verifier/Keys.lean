import Mathlib.Data.List.Nodup
import PhaseCheck.Proofs.Binary.Yields
import PhaseCheck.Proofs.Hierarchy.Steady

set_option autoImplicit false

namespace PhaseCheck

open Reader

theorem Method.read_owner (pool : Pool) (owner : ClassName) :
    Yields (Method.read pool owner) fun method => method.owner = owner :=
  .andThen fun _ => .andThen fun _ => .andThen fun _ => .andThen fun _ => .andThen fun _ => .andThen fun _ =>
    .andThen fun _ => .andThen fun _ => .done rfl

theorem ClassFile.read_methods {holds : ClassName → Method → Prop}
    (each : ∀ pool owner, Yields (Method.read pool owner) (holds owner)) :
    Yields ClassFile.read fun file => ∀ method ∈ file.methods, holds file.name method := by
  refine .andThen fun _ => .andThen fun _ => .andThen fun pool => .andThen fun _ => .andThen fun _ => ?_
  refine .andThen fun name => .andThen fun _ => .andThen fun _ => .andThen fun _ => ?_
  exact .using_first (each pool name).counted fun _ read => .andThen fun _ => .done read

namespace LoadedClass

variable {artifact : Artifact}

theorem eq_of_name {loaded other : LoadedClass artifact} (same : loaded.name = other.name) : loaded = other := by
  have found := Artifact.load_name loaded
  rw [same, Artifact.load_name] at found
  exact (Except.ok.inj found).symm

theorem decode_bytes_eq (loaded : LoadedClass artifact) :
    ∃ bytes, artifact.file loaded.name = .ok bytes ∧ ClassFile.decode bytes = .ok loaded.file := by
  have decoded := loaded.decoded
  unfold Artifact.decode at decoded
  split at decoded
  next => cases decoded
  next bytes found => exact ⟨bytes, found, ok_of_mapError_ok decoded⟩

theorem method_owner (loaded : LoadedClass artifact) {method : Method} (declared : method ∈ loaded.file.methods) :
    method.owner = loaded.name := by
  obtain ⟨_, _, parsed⟩ := loaded.decode_bytes_eq
  -- Every method that is read from a class file is given the name of that class.
  exact (ClassFile.read_methods Method.read_owner).whole parsed method declared

/-- No two methods of the class have both their names and their descriptors in common. -/
def MethodsDistinct (loaded : LoadedClass artifact) : Prop :=
  (loaded.file.methods.map fun method => (method.name, method.descriptor)).Nodup

end LoadedClass

theorem DeclaredMethod.eq_of_key {artifact : Artifact} {item other : DeclaredMethod artifact}
    (distinct : item.owner.MethodsDistinct) (same : item.key = other.key) : item = other := by
  obtain ⟨loaded, method, declared⟩ := item
  obtain ⟨otherLoaded, otherMethod, otherDeclared⟩ := other
  obtain ⟨sameOwner, sameName, sameDescriptor⟩ := MethodKey.mk.inj same
  -- Classes of one name are one class, and in that class name and descriptor settle the method.
  rw [loaded.method_owner declared, otherLoaded.method_owner otherDeclared] at sameOwner
  obtain rfl := LoadedClass.eq_of_name sameOwner
  obtain rfl := List.inj_on_of_nodup_map distinct declared otherDeclared (Prod.ext sameName sameDescriptor)
  rfl

end PhaseCheck
