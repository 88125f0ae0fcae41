import PhaseCheck.Proofs.Hierarchy.Supertypes

set_option autoImplicit false

namespace PhaseCheck

open Relation (ReflTransGen)

namespace Artifact

variable {artifact : Artifact} {libraries : List String} {first second third : FieldType}

/-- A value of the first type can be used where the second is wanted. -/
inductive Assignable (artifact : Artifact) (libraries : List String) : FieldType → FieldType → Prop where
  | same (type : FieldType) : Assignable artifact libraries type type
  | top {sub : FieldType} (reference : sub.isReference = true) : Assignable artifact libraries sub (.object .object)
  | above {sub super : ClassName} (reaches : ReflTransGen (artifact.Extends libraries) sub super) :
      Assignable artifact libraries (.object sub) (.object super)
  | interface {element : FieldType} {name : ClassName} (ofArrays : name = .cloneable ∨ name = .serializable) :
      Assignable artifact libraries (.array element) (.object name)
  | array {sub super : FieldType} (elements : Assignable artifact libraries sub super) :
      Assignable artifact libraries (.array sub) (.array super)

namespace Assignable

theorem eq_or_reference (assignable : artifact.Assignable libraries first second) :
    first = second ∨ first.isReference = true ∧ second.isReference = true := by
  cases assignable with
  | same type => exact .inl rfl
  | top reference => exact .inr ⟨reference, rfl⟩
  | above reaches => exact .inr ⟨rfl, rfl⟩
  | interface ofArrays => exact .inr ⟨rfl, rfl⟩
  | array elements => exact .inr ⟨rfl, rfl⟩

theorem objects_iff {sub super : ClassName} : artifact.Assignable libraries (.object sub) (.object super) ↔
    super = .object ∨ ReflTransGen (artifact.Extends libraries) sub super := by
  constructor
  · intro assignable
    cases assignable with
    | same => exact .inr .refl
    | top => exact .inl rfl
    | above reaches => exact .inr reaches
  · rintro (rfl | reaches)
    · exact .top rfl
    · exact .above reaches

theorem array_object_iff {element : FieldType} {name : ClassName} :
    artifact.Assignable libraries (.array element) (.object name) ↔
      name = .object ∨ name = .cloneable ∨ name = .serializable := by
  constructor
  · intro assignable
    cases assignable with
    | top => exact .inl rfl
    | interface ofArrays => exact .inr ofArrays
  · rintro (rfl | ofArrays)
    · exact .top rfl
    · exact .interface ofArrays

theorem arrays_iff : artifact.Assignable libraries (.array first) (.array second) ↔
    artifact.Assignable libraries first second := by
  constructor
  · intro assignable
    cases assignable with
    | same => exact .same _
    | array elements => exact elements
  · exact .array

theorem eq_of_library {name super : ClassName} (library : isLibrary libraries name = true)
    (reaches : ReflTransGen (artifact.Extends libraries) name super) : name = super := by
  rcases reaches.cases_head with same | ⟨above, ⟨owned, _⟩, _⟩
  · exact same
  · rw [library] at owned
    contradiction

theorem trans (java : ∀ name ∈ [ClassName.object, .cloneable, .serializable], isLibrary libraries name = true)
    (before : artifact.Assignable libraries first second) (after : artifact.Assignable libraries second third) :
    artifact.Assignable libraries first third := by
  induction before generalizing third with
  | same type => exact after
  | top reference =>
    cases after with
    | same => exact .top reference
    | top => exact .top reference
    | above reaches =>
      obtain rfl := eq_of_library (java .object (by simp)) reaches
      exact .top reference
  | above reaches =>
    cases after with
    | same => exact .above reaches
    | top => exact .top rfl
    | above further => exact .above (reaches.trans further)
  | @interface element name ofArrays =>
    cases after with
    | same => exact .interface ofArrays
    | top => exact .top rfl
    | above reaches =>
      obtain rfl := eq_of_library (java name (by simpa using .inr ofArrays)) reaches
      exact .interface ofArrays
  | array elements ih =>
    cases after with
    | same => exact .array elements
    | top => exact .top rfl
    | interface ofArrays => exact .interface ofArrays
    | array further => exact .array (ih further)

end Assignable

end Artifact

namespace Loader

open Artifact (Assignable)
open LoaderM (Decides)

variable {artifact : Artifact}

theorem isAssignable_self (libraries : List String) (type : FieldType) :
    (isAssignable libraries type type : LoaderM artifact Bool) = pure true := by
  unfold isAssignable
  exact if_pos rfl

theorem isAssignable_meets_of_ne (libraries : List String) {sub super : FieldType} (different : sub ≠ super) :
    Decides libraries (fun name => sub.innermost = .object name)
      (isAssignable libraries sub super : LoaderM artifact Bool) (artifact.Assignable libraries sub super) := by
  induction sub generalizing super with
  | base type =>
    unfold isAssignable
    rw [if_neg different]
    apply Decides.no
    intro assignable
    simpa [different, FieldType.isReference] using assignable.eq_or_reference
  | object sub =>
    unfold isAssignable
    rw [if_neg different]
    cases super with
    | base => exact .no (by rintro ⟨⟩)
    | object super =>
      apply ((isSubclass_meets libraries sub super).congr Assignable.objects_iff.symm).widen
      rintro origin rfl
      rfl
    | array => exact .no (by rintro ⟨⟩)
  | array sub ih =>
    unfold isAssignable
    rw [if_neg different]
    cases super with
    | base => exact .no (by rintro ⟨⟩)
    | object super => exact .done (decide_eq_true_iff.trans Assignable.array_object_iff.symm)
    | array super =>
      have apart : sub ≠ super := mt (congrArg FieldType.array) different
      by_cases references : (sub.isReference && super.isReference) = true
      next =>
        simp only [references, if_true]
        exact (ih apart).congr Assignable.arrays_iff.symm
      next =>
        simp only [references]
        apply Decides.no
        intro assignable
        have both := (Assignable.arrays_iff.mp assignable).eq_or_reference.resolve_left apart
        simp [both] at references

theorem isAssignable_meets (libraries : List String) (sub super : FieldType) :
    Decides libraries (fun name => sub.innermost = .object name)
      (isAssignable libraries sub super : LoaderM artifact Bool) (artifact.Assignable libraries sub super) := by
  by_cases same : sub = super
  next =>
    rw [same, isAssignable_self]
    exact .yes (.same _)
  next => exact isAssignable_meets_of_ne libraries same

/-- Assignability is reflexive and transitive. A third search can still fail where the first two did not, at a class
above the first type that does not load. -/
theorem isAssignable_preorder (artifact : Artifact) {libraries : List String} (java : "java." ∈ libraries) :
    (∀ (type : FieldType) (loader : Loader artifact), answerOf (isAssignable libraries type type loader) = .ok true) ∧
    ∀ (first second third : FieldType) (loader middle last : Loader artifact),
      answerOf (isAssignable libraries first second loader) = .ok true →
      answerOf (isAssignable libraries second third middle) = .ok true →
      answerOf (isAssignable libraries first third last) = .ok true ∨
        ∃ origin name cause, first.innermost = .object origin ∧ ReflTransGen (artifact.Extends libraries) origin name ∧
          artifact.Broken libraries name cause ∧
          answerOf (isAssignable libraries first third last) = .error cause := by
  constructor
  · intro type loader
    rw [isAssignable_self]
    rfl
  · intro first second third loader middle last before after
    have within : ∀ name ∈ [ClassName.object, .cloneable, .serializable], isLibrary libraries name = true := by
      intro name listed
      apply List.any_eq_true.mpr
      refine ⟨"java.", java, ?_⟩
      revert name
      decide
    have lower := (isAssignable_meets libraries first second).right before
    have upper := (isAssignable_meets libraries second third).right after
    have assignable := (lower.mp rfl).trans within (upper.mp rfl)
    have decides : Decides libraries _ (isAssignable libraries first third : LoaderM artifact Bool) _ :=
      isAssignable_meets libraries first third
    cases answered : answerOf (isAssignable libraries first third last) with
    | ok found =>
      rw [(decides.right answered).mpr assignable]
      exact .inl rfl
    | error cause =>
      obtain ⟨origin, name, named, above, broken⟩ := decides.broken answered
      exact .inr ⟨origin, name, cause, named, above, broken, rfl⟩

def memberlessFile (name super : UInt8) : List UInt8 :=
  [0xCA, 0xFE, 0xBA, 0xBE, 0, 0, 0, 52, 0, 5, 1, 0, 1, name, 7, 0, 1, 1, 0, 1, super, 7, 0, 3, 0, 0, 0, 2, 0, 4,
    0, 0, 0, 0, 0, 0, 0, 0]

def lowerName : ClassName := ⟨"K", by decide, by decide⟩

def upperName : ClassName := ⟨"L", by decide, by decide⟩

def twoLevels : Artifact :=
  ClassStore.toArtifact ⟨[(lowerName, memberlessFile 75 76)]⟩

def grid (name : ClassName) : FieldType := .array (.array (.object name))

theorem isAssignable_preorder_grids :
    "java." ∈ Settings.default.libraries ∧
      answerOf (isAssignable Settings.default.libraries (grid lowerName) (grid upperName) (.empty : Loader twoLevels)) =
        .ok true ∧
      answerOf (isAssignable Settings.default.libraries (grid upperName) (.array (.object .cloneable))
        (.empty : Loader twoLevels)) = .ok true ∧
      (answerOf (isAssignable Settings.default.libraries (grid lowerName) (.array (.object .cloneable))
          (.empty : Loader twoLevels)) = .ok true ∨
        ∃ origin name cause, (grid lowerName).innermost = .object origin ∧
          ReflTransGen (twoLevels.Extends Settings.default.libraries) origin name ∧
          twoLevels.Broken Settings.default.libraries name cause ∧
          answerOf (isAssignable Settings.default.libraries (grid lowerName) (.array (.object .cloneable))
            (.empty : Loader twoLevels)) = .error cause) := by
  have given {answer : Except CheckError Bool} (found : answer.toOption = some true) : answer = .ok true := by
    cases answer <;> simp_all [Except.toOption]
  have java : "java." ∈ Settings.default.libraries := by decide
  have lower : answerOf (isAssignable Settings.default.libraries (grid lowerName) (grid upperName)
      (.empty : Loader twoLevels)) = .ok true := given (by decide +kernel)
  have upper : answerOf (isAssignable Settings.default.libraries (grid upperName) (.array (.object .cloneable))
      (.empty : Loader twoLevels)) = .ok true := given (by decide +kernel)
  exact ⟨java, lower, upper, (isAssignable_preorder twoLevels java).2 _ _ _ _ _ _ lower upper⟩

end Loader

end PhaseCheck
