import Mathlib.Data.List.Nodup
import Mathlib.Data.List.Perm.Subperm
import PhaseCheck.Proofs.Hierarchy.Supertypes
import PhaseCheck.Proofs.Hierarchy.Transparency

set_option autoImplicit false

namespace PhaseCheck

namespace Artifact

variable {artifact : Artifact} {libraries : List String} {file top : ClassFile} {above : List (LoadedClass artifact)}
  {passed others : List ClassName} {outcome : Except CheckError (List (LoadedClass artifact))}

/-- Classes that are loaded one after the other, each as the superclass of the one before it, up to the one on top. -/
inductive Lineage (artifact : Artifact) (libraries : List String) :
    ClassFile → List (LoadedClass artifact) → ClassFile → Prop where
  | here (file : ClassFile) : Lineage artifact libraries file [] file
  | up {file top : ClassFile} {name : ClassName} {loaded : LoadedClass artifact} {above : List (LoadedClass artifact)}
      (next : file.superclass = some name) (found : artifact.lookUp libraries name = .ok (some loaded))
      (rest : Lineage artifact libraries loaded.file above top) :
      Lineage artifact libraries file (loaded :: above) top

/-- What there is to say of a lineage that does not go on from its top, where all its names have been passed. -/
inductive Concludes (artifact : Artifact) (libraries : List String) (passed : List ClassName)
    (above : List (LoadedClass artifact)) (top : ClassFile) : Except CheckError (List (LoadedClass artifact)) → Prop where
  | root (nothing : top.superclass = none) : Concludes artifact libraries passed above top (.ok above)
  | unknown {name : ClassName} (next : top.superclass = some name) (new : name ∉ passed)
      (absent : artifact.lookUp libraries name = .ok none) : Concludes artifact libraries passed above top (.ok above)
  | cycle {name : ClassName} (next : top.superclass = some name) (old : name ∈ passed) :
      Concludes artifact libraries passed above top (.error (.cyclicHierarchy name))
  | broken {name : ClassName} {cause : CheckError} (next : top.superclass = some name) (new : name ∉ passed)
      (failed : artifact.lookUp libraries name = .error cause) :
      Concludes artifact libraries passed above top (.error cause)

theorem name_of_lookUp {name : ClassName} {loaded : LoadedClass artifact}
    (found : artifact.lookUp libraries name = .ok (some loaded)) : loaded.name = name :=
  name_of_load (load_of_lookUp found).2

theorem Lineage.snoc {name : ClassName} {loaded : LoadedClass artifact}
    (lineage : artifact.Lineage libraries file above top) (next : top.superclass = some name)
    (found : artifact.lookUp libraries name = .ok (some loaded)) :
    artifact.Lineage libraries file (above ++ [loaded]) loaded.file := by
  induction lineage with
  | here file => exact .up next found (.here _)
  | up first load _ ih => exact .up first load (ih next)

theorem length_le_files (distinct : (above.map LoadedClass.name).Nodup) : above.length ≤ artifact.files.length := by
  have apart : (above.map LoadedClass.file).Nodup := by
    apply List.Nodup.of_map ClassFile.name
    rw [List.map_map]
    exact distinct
  have known : above.map LoadedClass.file ⊆ artifact.classes := by
    intro file present
    obtain ⟨loaded, _, rfl⟩ := List.mem_map.mp present
    exact mem_classes_of_decode loaded.decoded
  calc
    above.length = (above.map LoadedClass.file).length := (List.length_map _).symm
    _ ≤ artifact.classes.length := (apart.subperm known).length_le
    _ ≤ artifact.files.length := List.length_filterMap_le ..

theorem concludes_or_continues (lineage : artifact.Lineage libraries file above top)
    (distinct : (file.name :: above.map LoadedClass.name).Nodup) :
    (∃ outcome, artifact.Concludes libraries (file.name :: above.map LoadedClass.name) above top outcome) ∨
      ∃ loaded, artifact.Lineage libraries file (above ++ [loaded]) loaded.file ∧
        (file.name :: (above ++ [loaded]).map LoadedClass.name).Nodup := by
  cases next : top.superclass with
  | none => exact .inl ⟨_, .root next⟩
  | some name =>
    by_cases old : name ∈ file.name :: above.map LoadedClass.name
    next => exact .inl ⟨_, .cycle next old⟩
    next =>
      cases found : artifact.lookUp libraries name with
      | error cause => exact .inl ⟨_, .broken next old found⟩
      | ok answer =>
        cases answer with
        | none => exact .inl ⟨_, .unknown next old found⟩
        | some loaded =>
          refine .inr ⟨loaded, lineage.snoc next found, ?_⟩
          rw [List.map_append, ← List.cons_append]
          apply distinct.append (List.nodup_singleton _)
          rw [List.disjoint_singleton, name_of_lookUp found]
          exact old

theorem Lineage.exists_end (lineage : artifact.Lineage libraries file above top)
    (distinct : (file.name :: above.map LoadedClass.name).Nodup) :
    ∃ above top outcome, artifact.Lineage libraries file above top ∧
      (file.name :: above.map LoadedClass.name).Nodup ∧
      artifact.Concludes libraries (file.name :: above.map LoadedClass.name) above top outcome := by
  -- Every class that is passed has a file of its own, and there are only so many.
  induction left : artifact.files.length - above.length using Nat.strongRecOn generalizing above top with
  | _ left ih =>
    rcases concludes_or_continues lineage distinct with ⟨outcome, ends⟩ | ⟨loaded, longer, apart⟩
    · exact ⟨above, top, outcome, lineage, distinct, ends⟩
    · have bound := length_le_files (List.nodup_cons.mp apart).2
      rw [List.length_append, List.length_singleton] at bound
      apply ih _ _ longer apart rfl
      rw [List.length_append, List.length_singleton]
      omega

theorem Concludes.congr (same : ∀ name, name ∈ passed ↔ name ∈ others)
    (ends : artifact.Concludes libraries passed above top outcome) :
    artifact.Concludes libraries others above top outcome := by
  cases ends with
  | root nothing => exact .root nothing
  | unknown next new absent => exact .unknown next (mt (same _).mpr new) absent
  | cycle next old => exact .cycle next ((same _).mp old)
  | broken next new failed => exact .broken next (mt (same _).mpr new) failed

theorem Concludes.tail {loaded : LoadedClass artifact}
    (ends : artifact.Concludes libraries passed (loaded :: above) top outcome) :
    ∃ rest, artifact.Concludes libraries passed above top rest ∧ outcome = rest.map (loaded :: ·) := by
  cases ends with
  | root nothing => exact ⟨_, .root nothing, rfl⟩
  | unknown next new absent => exact ⟨_, .unknown next new absent, rfl⟩
  | cycle next old => exact ⟨_, .cycle next old, rfl⟩
  | broken next new failed => exact ⟨_, .broken next new failed, rfl⟩

end Artifact

namespace Loader

variable {artifact : Artifact} {libraries : List String} {seen : List ClassName} {file : ClassFile} {name : ClassName}

theorem answer_climb_of_root (nothing : file.superclass = none) (loader : Loader artifact) :
    answerOf (climb libraries seen file loader) = .ok [] := by
  rw [climb_of_none nothing]
  rfl

theorem answer_climb_of_old (next : file.superclass = some name) (old : name ∈ seen) (loader : Loader artifact) :
    answerOf (climb libraries seen file loader) = .error (.cyclicHierarchy name) := by
  rw [climb_of_seen next old]
  rfl

theorem answer_climb_of_new (next : file.superclass = some name) (new : name ∉ seen) (loader : Loader artifact) :
    answerOf (climb libraries seen file loader) = artifact.lookUp libraries name >>= fun found =>
      match found with
      | none => .ok []
      | some above => (answerOf (climb libraries (name :: seen) above.file loader)).map (above :: ·) := by
  rw [climb_of_new next new, answer_bind, answer_loadOptional]
  · apply bind_congr
    intro found
    cases found with
    | none => rfl
    | some above => rw [answer_map]
  · intro found first second
    cases found with
    | none => rfl
    | some above =>
      rw [answer_map, answer_map, (climb_steady libraries _ above.file : LoaderM.Steady [] _ _).same first second]

theorem answer_of_lineage {above : List (LoadedClass artifact)} {top : ClassFile}
    {outcome : Except CheckError (List (LoadedClass artifact))} (lineage : artifact.Lineage libraries file above top)
    (distinct : ((above.map LoadedClass.name).reverse ++ seen).Nodup)
    (ends : artifact.Concludes libraries ((above.map LoadedClass.name).reverse ++ seen) above top outcome)
    (loader : Loader artifact) : answerOf (climb libraries seen file loader) = outcome := by
  induction lineage generalizing seen outcome with
  | here file =>
    rw [List.map_nil, List.reverse_nil, List.nil_append] at ends
    cases ends with
    | root nothing => exact answer_climb_of_root nothing loader
    | unknown next new absent =>
      rw [answer_climb_of_new next new, absent]
      rfl
    | cycle next old => exact answer_climb_of_old next old loader
    | broken next new failed =>
      rw [answer_climb_of_new next new, failed]
      rfl
  | @up file top name loaded above next found _ ih =>
    -- The name is the next one to be seen, in front of those that were seen before.
    have passed : ((loaded :: above).map LoadedClass.name).reverse ++ seen =
        (above.map LoadedClass.name).reverse ++ (name :: seen) := by
      simp [Artifact.name_of_lookUp found]
    rw [passed] at distinct ends
    have new : name ∉ seen := (List.nodup_cons.mp (List.nodup_append.mp distinct).2.1).1
    obtain ⟨rest, restEnds, rfl⟩ := ends.tail
    rw [answer_climb_of_new next new, found]
    change Except.map _ _ = _
    rw [ih distinct restEnds]

theorem answer_superclassesOf {above : List (LoadedClass artifact)} {top : ClassFile}
    {outcome : Except CheckError (List (LoadedClass artifact))} (lineage : artifact.Lineage libraries file above top)
    (distinct : (file.name :: above.map LoadedClass.name).Nodup)
    (ends : artifact.Concludes libraries (file.name :: above.map LoadedClass.name) above top outcome)
    (loader : Loader artifact) : answerOf (superclassesOf libraries file loader) = outcome := by
  have passed : (file.name :: above.map LoadedClass.name).reverse =
      (above.map LoadedClass.name).reverse ++ [file.name] := List.reverse_cons
  apply answer_of_lineage lineage
  · rw [← passed, List.nodup_reverse]
    exact distinct
  · rw [← passed]
    exact ends.congr fun name => List.mem_reverse.symm

/-- The superclasses of a class are those of the one lineage that cannot go on. Its names are all different, so it has
no more classes than the artifact has files. The first name that would come again is reported as a cycle, before it is
known whether there is such a class. -/
theorem superclassesOf_lineage (artifact : Artifact) (libraries : List String) (loader : Loader artifact)
    (file : ClassFile) :
    (∀ outcome, answerOf (superclassesOf libraries file loader) = outcome ↔
      ∃ above top, artifact.Lineage libraries file above top ∧ (file.name :: above.map LoadedClass.name).Nodup ∧
        artifact.Concludes libraries (file.name :: above.map LoadedClass.name) above top outcome) ∧
    (∀ above top, artifact.Lineage libraries file above top → (file.name :: above.map LoadedClass.name).Nodup →
      above.length ≤ artifact.files.length) ∧
    (∀ above, answerOf (superclassesOf libraries file loader) = .ok above →
      (file.name :: above.map LoadedClass.name).Nodup) ∧
    ∀ loaded : LoadedClass artifact, superclasses libraries loaded = superclassesOf libraries loaded.file := by
  obtain ⟨above, top, outcome, lineage, distinct, ends⟩ :=
    (Artifact.Lineage.here file : artifact.Lineage libraries file [] file).exists_end (List.nodup_singleton _)
  have answered := answer_superclassesOf lineage distinct ends loader
  refine ⟨?_, ?_, ?_, ?_⟩
  · intro other
    constructor
    · rintro rfl
      rw [answered]
      exact ⟨above, top, lineage, distinct, ends⟩
    · rintro ⟨_, _, otherLineage, otherDistinct, otherEnds⟩
      exact answer_superclassesOf otherLineage otherDistinct otherEnds loader
  · intro others _ _ apart
    exact Artifact.length_le_files (List.nodup_cons.mp apart).2
  · intro others same
    rw [answered] at same
    subst same
    cases ends with
    | root => exact distinct
    | unknown => exact distinct
  · exact fun loaded => rfl

end Loader

end PhaseCheck
