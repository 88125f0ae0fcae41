import PhaseCheck.Proofs.Verifier.Keys

set_option autoImplicit false

namespace PhaseCheck

theorem Artifact.name_of_load {artifact : Artifact} {name : ClassName} {loaded : LoadedClass artifact}
    (loads : artifact.load name = .ok loaded) : loaded.name = name := by
  cases decoded : artifact.decode name with
  | error cause =>
    rw [load_of_error decoded] at loads
    cases loads
  | ok file =>
    rw [load_of_ok decoded] at loads
    split at loads
    next same => cases loads; exact same
    next => cases loads

namespace Loader

open LoaderM

variable {artifact : Artifact}

-- What can be asked of a loader. The class whose superclasses are wanted need not have been loaded by it.
inductive Request where
  | load (name : ClassName)
  | loadOptional (name : ClassName)
  | superclasses (file : ClassFile)
  | isSubclass (sub super : ClassName)
  | isAssignable (sub super : FieldType)

namespace Request

def Answer (artifact : Artifact) : Request → Type
  | .load _ => LoadedClass artifact
  | .loadOptional _ => Option (LoadedClass artifact)
  | .superclasses _ => List (LoadedClass artifact)
  | .isSubclass .. => Bool
  | .isAssignable .. => Bool

def perform (libraries : List String) : (request : Request) → LoaderM artifact (request.Answer artifact)
  | .load name => Loader.load name
  | .loadOptional name => Loader.loadOptional libraries name
  | .superclasses file => superclassesOf libraries file
  | .isSubclass sub super => Loader.isSubclass libraries sub super
  | .isAssignable sub super => Loader.isAssignable libraries sub super

theorem perform_steady (artifact : Artifact) (libraries : List String) (request : Request) :
    ∃ uses, Steady ([] : List (LoadedClass artifact)) (request.perform libraries) uses := by
  cases request with
  | load name => exact ⟨_, load_steady name⟩
  | loadOptional name => exact ⟨_, loadOptional_steady libraries name⟩
  | superclasses file => exact ⟨_, superclassesOf_steady libraries file⟩
  | isSubclass sub super => exact ⟨_, isSubclass_steady libraries sub super⟩
  | isAssignable sub super => exact ⟨_, isAssignable_steady libraries sub super⟩

end Request

def after (libraries : List String) (requests : List Request) : Loader artifact :=
  requests.foldl (fun loader request => stateOf (request.perform libraries loader)) .empty

theorem after_append_singleton (libraries : List String) (earlier : List Request) (request : Request) :
    (after libraries (earlier ++ [request]) : Loader artifact) =
      stateOf (request.perform libraries (after libraries earlier)) := by
  rw [after, List.foldl_append]
  rfl

theorem find?_eq_some_iff {loader : Loader artifact} {name : ClassName} {loaded : LoadedClass artifact} :
    loader.find? name = some loaded ↔ loaded ∈ loader.classes ∧ loaded.name = name := by
  constructor
  · intro found
    exact ⟨List.mem_of_find?_eq_some found, by simpa using List.find?_some found⟩
  · rintro ⟨present, rfl⟩
    cases found : loader.find? loaded.name with
    | none => exact absurd (List.find?_eq_none.mp found loaded present) (by simp)
    | some other =>
      -- There is only one class of that name in the artifact.
      have named : other.name = loaded.name := by simpa using List.find?_some found
      rw [LoadedClass.eq_of_name named]

theorem find?_of_load {loader final : Loader artifact} {name : ClassName} {loaded : LoadedClass artifact}
    (ran : load name loader = .ok loaded final) : final.find? name = some loaded := by
  have kept := (load_steady name : Steady [] _ _).kept (List.nil_subset _) ran
  have answered := answer_load name loader
  rw [ran] at answered
  exact find?_eq_some_iff.mpr ⟨by simpa using kept, Artifact.name_of_load answered.symm⟩

theorem classes_subset_after (libraries : List String) (earlier later : List Request) :
    (after libraries earlier : Loader artifact).classes ⊆ (after libraries (earlier ++ later)).classes := by
  induction later generalizing earlier with
  | nil => simp
  | cons request rest ih =>
    obtain ⟨_, steady⟩ := request.perform_steady artifact libraries
    have step := steady.grows (after libraries earlier)
    rw [← after_append_singleton] at step
    have steps := ih (earlier ++ [request])
    rw [List.append_assoc, List.singleton_append] at steps
    exact List.Subset.trans step steps

/-- A loader answers what it would answer at first. What it keeps under a name is the class of that name, decoded from
its bytes in the artifact; it keeps what it loads, and never gives it up for anything else. -/
theorem answer_after (artifact : Artifact) (libraries : List String) (earlier : List Request) :
    (∀ request : Request, answerOf (request.perform libraries (after libraries earlier : Loader artifact)) =
      answerOf (request.perform libraries (.empty : Loader artifact))) ∧
    (∀ name loaded, (after libraries earlier : Loader artifact).find? name = some loaded → loaded.file.name = name ∧
      ∃ bytes, artifact.file name = .ok bytes ∧ ClassFile.decode bytes = .ok loaded.file) ∧
    (∀ name loaded, answerOf (load name (after libraries earlier : Loader artifact)) = .ok loaded →
      (after libraries (earlier ++ [.load name]) : Loader artifact).find? name = some loaded) ∧
    ∀ later name loaded, (after libraries earlier : Loader artifact).find? name = some loaded →
      (after libraries (earlier ++ later) : Loader artifact).find? name = some loaded := by
  refine ⟨?_, ?_, ?_, ?_⟩
  · intro request
    obtain ⟨_, steady⟩ := request.perform_steady artifact libraries
    exact steady.same _ _
  · intro name loaded found
    obtain ⟨_, rfl⟩ := find?_eq_some_iff.mp found
    exact ⟨rfl, loaded.decode_bytes_eq⟩
  · intro name loaded answered
    rw [after_append_singleton]
    change find? (stateOf (load name (after libraries earlier))) name = some loaded
    cases ran : load name (after libraries earlier : Loader artifact) with
    | error cause final => rw [ran] at answered; cases answered
    | ok other final =>
      rw [ran] at answered
      cases answered
      exact find?_of_load ran
  · intro later name loaded found
    obtain ⟨present, named⟩ := find?_eq_some_iff.mp found
    exact find?_eq_some_iff.mpr ⟨classes_subset_after libraries earlier later present, named⟩

end Loader

end PhaseCheck
