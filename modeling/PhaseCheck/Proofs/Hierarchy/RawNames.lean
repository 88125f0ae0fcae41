import PhaseCheck.Proofs.Descriptor.Exactness
import PhaseCheck.Proofs.Hierarchy.Transparency

set_option autoImplicit false

namespace PhaseCheck

namespace ClassName

variable {text : String} {name : ClassName}

theorem ofInternal_eq_ok_iff : ofInternal text = .ok name ↔ name.toInternal = text := by
  constructor
  · exact toInternal_of_ofInternal
  · rintro rfl
    exact name.ofInternal_toInternal

theorem toInternal_inj {other : ClassName} : name.toInternal = other.toInternal ↔ name = other := by
  rw [← ofInternal_eq_ok_iff, ofInternal_toInternal, Except.ok.injEq]
  exact eq_comm

theorem swap_eq_nil_iff {old new : Char} : (swap old new text).toList = [] ↔ text = "" := by
  rw [swap, String.toList_ofList, List.map_eq_nil_iff, String.toList_eq_nil_iff]

theorem exists_ofInternal_iff : (∃ name, ofInternal text = .ok name) ↔ text ≠ "" ∧ '.' ∉ text.toList := by
  constructor
  · rintro ⟨name, made⟩
    obtain rfl := toInternal_of_ofInternal made
    refine ⟨?_, name.dot_not_mem_toInternal⟩
    intro empty
    have nothing : name.text = "" := by
      rw [← name.swap_toInternal, empty]
      rfl
    exact name.nonempty (String.toList_eq_nil_iff.mpr nothing)
  · rintro ⟨nonempty, undotted⟩
    let name : ClassName := ⟨swap '/' '.' text, mt swap_eq_nil_iff.mp nonempty, not_mem_swap (by decide) text⟩
    refine ⟨name, ?_⟩
    rw [ofInternal, if_neg undotted]
    exact name.ofDotted_text

end ClassName

namespace Pool

variable {pool : Pool} {index : UInt16} {raw : String} {name : ClassName}

/-- The text of a class constant, as it stands in the file. -/
def NamesClass (pool : Pool) (index : UInt16) (raw : String) : Prop :=
  ∃ position, pool.get index = .ok (.class position) ∧ pool.text position = .ok raw

theorem className_of_namesClass (names : pool.NamesClass index raw) :
    pool.className index = (ClassName.ofInternal raw).mapError .malformedName := by
  obtain ⟨position, got, spelled⟩ := names
  simp only [className, got, spelled, bind, Except.bind]

theorem namesClass_of_className (named : pool.className index = .ok name) : ∃ raw, pool.NamesClass index raw := by
  obtain ⟨constant, got, named⟩ := values_of_bind_ok named
  split at named
  next position =>
    obtain ⟨raw, spelled, _⟩ := values_of_bind_ok named
    exact ⟨raw, position, got, spelled⟩
  next => cases named

theorem className_eq_ok_iff (names : pool.NamesClass index raw) :
    pool.className index = .ok name ↔ name.toInternal = raw := by
  rw [className_of_namesClass names, ← ClassName.ofInternal_eq_ok_iff]
  cases ClassName.ofInternal raw <;> simp [Except.mapError]

end Pool

namespace ClassFile

def readOwnIndex : Reader (Pool × UInt16) := do
  readMagic
  let _ ← Version.read
  let pool ← Pool.read
  let _ ← Reader.u16
  return (pool, ← Reader.u16)

/-- The name that a class file gives to its class, as it stands in the file. -/
def Titled (bytes : List UInt8) (raw : String) : Prop :=
  ∃ pool index rest, readOwnIndex (.ofBytes bytes) = .ok (pool, index) rest ∧ pool.NamesClass index raw

variable {bytes : List UInt8} {file : ClassFile} {raw : String}

theorem ownIndex_of_read {cursor final : Cursor} (ran : read cursor = .ok file final) :
    ∃ index rest, readOwnIndex cursor = .ok (file.pool, index) rest ∧ file.pool.className index = .ok file.name := by
  obtain ⟨_, _, magic, ran⟩ := steps_of_bind_ok ran
  obtain ⟨version, _, versioned, ran⟩ := steps_of_bind_ok ran
  obtain ⟨pool, _, filled, ran⟩ := steps_of_bind_ok ran
  obtain ⟨access, _, accessed, ran⟩ := steps_of_bind_ok ran
  obtain ⟨index, behind, indexed, ran⟩ := steps_of_bind_ok ran
  obtain ⟨name, _, named, ran⟩ := steps_of_bind_ok ran
  obtain ⟨superclass, _, _, ran⟩ := steps_of_bind_ok ran
  obtain ⟨interfaces, _, _, ran⟩ := steps_of_bind_ok ran
  obtain ⟨fields, _, _, ran⟩ := steps_of_bind_ok ran
  obtain ⟨methods, _, _, ran⟩ := steps_of_bind_ok ran
  obtain ⟨attributes, _, _, ran⟩ := steps_of_bind_ok ran
  cases ran
  refine ⟨index, behind, ?_, ?_⟩
  · exact (bind_of_ok magic).trans ((bind_of_ok versioned).trans ((bind_of_ok filled).trans
      ((bind_of_ok accessed).trans (bind_of_ok indexed))))
  · exact Reader.Yields.lifted (fun _ made => made) named

theorem read_of_decode (decoded : decode bytes = .ok file) : ∃ rest, read (.ofBytes bytes) = .ok file rest := by
  unfold decode Reader.whole at decoded
  split at decoded
  next result final ran =>
    cases decoded
    obtain ⟨value, middle, taken, ran⟩ := steps_of_bind_ok ran
    obtain ⟨_, last, _, ran⟩ := steps_of_bind_ok ran
    cases ran
    exact ⟨middle, taken⟩
  next => cases decoded

theorem titled_iff (decoded : decode bytes = .ok file) : Titled bytes raw ↔ file.name.toInternal = raw := by
  obtain ⟨_, ran⟩ := read_of_decode decoded
  obtain ⟨index, rest, found, named⟩ := ownIndex_of_read ran
  constructor
  · rintro ⟨pool, other, last, again, names⟩
    cases found.symm.trans again
    exact (Pool.className_eq_ok_iff names).mp named
  · rintro rfl
    obtain ⟨raw, names⟩ := Pool.namesClass_of_className named
    obtain rfl := (Pool.className_eq_ok_iff names).mp named
    exact ⟨_, index, rest, found, names⟩

end ClassFile

namespace Loader

variable {artifact : Artifact} {name other : ClassName}

theorem find?_load_of_ne (different : other ≠ name) (loader : Loader artifact) :
    (stateOf (load other loader)).find? name = loader.find? name := by
  unfold load
  split
  next => rfl
  next =>
    dsimp only
    split
    next => rfl
    next file decoded =>
      split
      next same =>
        have apart : ¬file.name = name := fun met => different (same.symm.trans met)
        simp [stateOf, keep, find?, note, LoadedClass.name, apart]
      next => rfl

theorem titled_of_load {loader : Loader artifact} {loaded : LoadedClass artifact}
    (answered : answerOf (load name loader) = .ok loaded) :
    loaded.name = name ∧ ∃ bytes, artifact.file name = .ok bytes ∧ ClassFile.decode bytes = .ok loaded.file ∧
      ClassFile.Titled bytes name.toInternal := by
  rw [answer_load] at answered
  obtain rfl := Artifact.name_of_load answered
  obtain ⟨bytes, stored, decoded⟩ := loaded.decode_bytes_eq
  exact ⟨rfl, bytes, stored, decoded, (ClassFile.titled_iff decoded).mpr rfl⟩

/-- A text is the internal form of a name if it is not empty and has no dot, and of that name only. So constants, class
files and classes that were loaded have the same dotted name just if they have the same raw name: what is loaded under a
dotted name calls itself by the raw name it was made from, and loading anything else does not touch it. -/
theorem raw_names_never_merged (artifact : Artifact) :
    (∀ text, (∃ name, ClassName.ofInternal text = .ok name) ↔ text ≠ "" ∧ '.' ∉ text.toList) ∧
    (∀ text name, ClassName.ofInternal text = .ok name → name.toInternal = text) ∧
    (∀ text name, ClassName.ofDotted text = .ok name → ClassName.ofInternal name.toInternal = .ok name) ∧
    (∀ (first second : Pool) index position firstRaw secondRaw firstName secondName,
      first.NamesClass index firstRaw → second.NamesClass position secondRaw →
      first.className index = .ok firstName → second.className position = .ok secondName →
        (firstName = secondName ↔ firstRaw = secondRaw)) ∧
    (∀ bytes content first second firstRaw secondRaw,
      ClassFile.decode bytes = .ok first → ClassFile.decode content = .ok second →
      ClassFile.Titled bytes firstRaw → ClassFile.Titled content secondRaw →
        (first.name = second.name ↔ firstRaw = secondRaw)) ∧
    ∀ (loader : Loader artifact) raw name, ClassName.ofInternal raw = .ok name →
      (∀ loaded, answerOf (load name loader) = .ok loaded →
        ∃ bytes, artifact.file name = .ok bytes ∧ ClassFile.decode bytes = .ok loaded.file ∧
          ClassFile.Titled bytes raw) ∧
      ∀ otherRaw other, ClassName.ofInternal otherRaw = .ok other → raw ≠ otherRaw →
        (stateOf (load other loader)).find? name = loader.find? name ∧
        ∀ first second, answerOf (load name loader) = .ok first → answerOf (load other loader) = .ok second →
          first.file ≠ second.file := by
  refine ⟨fun _ => ClassName.exists_ofInternal_iff, fun _ _ => ClassName.toInternal_of_ofInternal,
    fun _ name _ => name.ofInternal_toInternal, ?_, ?_, ?_⟩
  · intro first second index position firstRaw secondRaw firstName secondName firstNames secondNames firstMade secondMade
    rw [← (Pool.className_eq_ok_iff firstNames).mp firstMade, ← (Pool.className_eq_ok_iff secondNames).mp secondMade,
      ClassName.toInternal_inj]
  · intro bytes content first second firstRaw secondRaw firstDecoded secondDecoded firstTitled secondTitled
    rw [← (ClassFile.titled_iff firstDecoded).mp firstTitled, ← (ClassFile.titled_iff secondDecoded).mp secondTitled,
      ClassName.toInternal_inj]
  · intro loader raw name made
    obtain rfl := ClassName.toInternal_of_ofInternal made
    refine ⟨fun loaded answered => (titled_of_load answered).2, ?_⟩
    intro otherRaw other otherMade different
    obtain rfl := ClassName.toInternal_of_ofInternal otherMade
    have distinct : other ≠ name := fun same => different (same ▸ rfl)
    refine ⟨find?_load_of_ne distinct loader, ?_⟩
    intro first second firstAnswer secondAnswer same
    apply distinct
    rw [← (titled_of_load firstAnswer).1, ← (titled_of_load secondAnswer).1]
    exact congrArg ClassFile.name same.symm

end Loader

end PhaseCheck
