import PhaseCheck.Proofs.Hierarchy.Steady

set_option autoImplicit false

namespace PhaseCheck

section

variable {first second : Artifact} (files : first.file = second.file)

include files in
theorem Artifact.decode_congr (name : ClassName) : second.decode name = first.decode name := by
  unfold decode
  rw [files]

def LoadedClass.transfer (loaded : LoadedClass first) : LoadedClass second :=
  ⟨loaded.file, (Artifact.decode_congr files _).trans loaded.decoded⟩

def DeclaredMethod.transfer (item : DeclaredMethod first) : DeclaredMethod second :=
  ⟨item.owner.transfer files, item.method, item.declared⟩

theorem LoadedClass.methods_transfer (loaded : LoadedClass first) :
    (loaded.transfer files).methods = loaded.methods.map (·.transfer files) := by
  simp only [methods, List.map_map]
  rfl

theorem LoadedClass.overridable_transfer (loaded : LoadedClass first) (method : Method) :
    (loaded.transfer files).overridable method = (loaded.overridable method).map (·.transfer files) := by
  simp only [overridable, methods_transfer, List.filter_map]
  rfl

theorem LoadedClass.find?_transfer (loaded : LoadedClass first) (reference : MethodRef) :
    (loaded.transfer files).find? reference = (loaded.find? reference).map (·.transfer files) := by
  simp only [find?, methods_transfer, List.find?_map]
  rfl

theorem Artifact.load_transfer (name : ClassName) :
    second.load name = (first.load name).map (·.transfer files) := by
  have decodes := decode_congr files name
  cases decoded : first.decode name with
  | error cause =>
    rw [load_of_error decoded, load_of_error (decodes.trans decoded)]
    rfl
  | ok file =>
    rw [load_of_ok decoded, load_of_ok (decodes.trans decoded)]
    split <;> rfl

end

namespace LoaderM

variable {first second : Artifact} {α β γ δ ι κ : Type}

/-- Actions on the classes of two artifacts that answer alike, where `move` takes answers from one to the other. -/
def Matches (move : α → β) (left : LoaderM first α) (right : LoaderM second β) : Prop :=
  ∀ loader other, answerOf (right other) = (answerOf (left loader)).map move

namespace Matches

variable {move : α → β} {moveNext : γ → δ} {left : LoaderM first α} {right : LoaderM second β}

theorem fresh_eq (both : Matches move left right) : fresh right = (fresh left).map move :=
  both .empty .empty

theorem done (value : α) : Matches move (pure value : LoaderM first α) (pure (move value) : LoaderM second β) :=
  fun _ _ => rfl

theorem failed (cause : CheckError) : Matches move (throw cause : LoaderM first α) (throw cause : LoaderM second β) :=
  fun _ _ => rfl

theorem noting (event : Event) :
    Matches id (modify (·.note event) : LoaderM first PUnit) (modify (·.note event) : LoaderM second PUnit) :=
  fun _ _ => rfl

theorem andThen {rest : α → LoaderM first γ} {others : β → LoaderM second δ} (both : Matches move left right)
    (next : ∀ value, Matches moveNext (rest value) (others (move value))) :
    Matches moveNext (left >>= rest) (right >>= others) := by
  intro loader other
  have here := both loader other
  cases ran : left loader with
  | ok value middle =>
    cases ranOther : right other with
    | ok found middleOther =>
      rw [ran, ranOther] at here
      cases here
      rw [bind_of_ok ran, bind_of_ok ranOther]
      exact next value middle middleOther
    | error cause middleOther =>
      rw [ran, ranOther] at here
      cases here
  | error cause middle =>
    cases ranOther : right other with
    | ok found middleOther =>
      rw [ran, ranOther] at here
      cases here
    | error found middleOther =>
      rw [ran, ranOther] at here
      cases here
      rw [bind_of_error ran, bind_of_error ranOther]
      rfl

theorem ifElse {condition : Prop} [Decidable condition] {leftElse : LoaderM first α} {rightElse : LoaderM second β}
    (yes : Matches move left right) (no : Matches move leftElse rightElse) :
    Matches move (if condition then left else leftElse) (if condition then right else rightElse) := by
  by_cases holds : condition
  · simpa only [if_pos holds] using yes
  · simpa only [if_neg holds] using no

theorem mapM {step : ι → LoaderM first α} {steps : ι → LoaderM second β} (items : List ι)
    (each : ∀ item, Matches move (step item) (steps item)) :
    Matches (List.map move) (items.mapM step) (items.mapM steps) := by
  induction items with
  | nil => exact done []
  | cons item rest ih =>
    rw [List.mapM_cons, List.mapM_cons]
    exact (each item).andThen fun value => ih.andThen fun values => done (value :: values)

variable {test : ι → LoaderM first Bool} {tests : κ → LoaderM second Bool} {moveItem : ι → κ}

theorem allM (items : List ι) (each : ∀ item, Matches id (test item) (tests (moveItem item))) :
    Matches id (items.allM test) ((items.map moveItem).allM tests) := by
  induction items with
  | nil => exact done true
  | cons item rest ih =>
    rw [List.map_cons, List.allM_cons, List.allM_cons]
    refine (each item).andThen fun holds => ?_
    cases holds with
    | false => exact done false
    | true => exact ih

theorem findM? (items : List ι) (each : ∀ item, Matches id (test item) (tests (moveItem item))) :
    Matches (Option.map moveItem) (items.findM? test) ((items.map moveItem).findM? tests) := by
  induction items with
  | nil => exact done none
  | cons item rest ih =>
    rw [List.map_cons, List.findM?, List.findM?]
    refine (each item).andThen fun holds => ?_
    cases holds with
    | false => exact ih
    | true => exact done (some item)

end Matches

end LoaderM

namespace Loader

open LoaderM

variable {first second : Artifact} (files : first.file = second.file) (libraries : List String)

include files

theorem loadOptional_matches (name : ClassName) :
    Matches (Option.map (·.transfer files)) (loadOptional libraries name : LoaderM first _)
      (loadOptional libraries name : LoaderM second _) := by
  intro loader other
  rw [answer_loadOptional, answer_loadOptional, Artifact.load_transfer files]
  split
  · rfl
  · cases first.load name with
    | ok loaded => rfl
    | error cause => cases cause <;> rfl

theorem climb_matches (seen : List ClassName) (file : ClassFile) :
    Matches (List.map (·.transfer files)) (climb libraries seen file : LoaderM first _)
      (climb libraries seen file : LoaderM second _) := by
  induction seen, file using @climb.induct first with
  | case1 seen file top =>
    rw [climb_of_none top, climb_of_none top]
    exact .done []
  | case2 seen file name next old =>
    rw [climb_of_seen next old, climb_of_seen next old]
    exact .failed _
  | case3 seen file name next new ih =>
    rw [climb_of_new next new, climb_of_new next new]
    refine (loadOptional_matches files libraries name).andThen fun found => ?_
    cases found with
    | none => exact .done []
    | some above => exact (ih above).andThen fun others => .done (above :: others)

theorem superclassesOf_matches (file : ClassFile) :
    Matches (List.map (·.transfer files)) (superclassesOf libraries file : LoaderM first _)
      (superclassesOf libraries file : LoaderM second _) :=
  climb_matches files libraries [file.name] file

theorem reaches_matches (goal : ClassName) (search : SupertypeSearch) :
    Matches id (reaches libraries goal search : LoaderM first Bool)
      (reaches libraries goal search : LoaderM second Bool) := by
  induction search using @reaches.induct first goal with
  | case1 search finished =>
    rw [reaches_of_nil finished, reaches_of_nil finished]
    exact .done false
  | case2 search rest pending =>
    rw [reaches_of_goal pending, reaches_of_goal pending]
    exact .done true
  | case3 search name rest pending different skip enter =>
    rw [reaches_of_other pending different, reaches_of_other pending different]
    refine (loadOptional_matches files libraries name).andThen fun found => ?_
    cases found with
    | none => exact skip
    | some loaded => exact enter loaded

theorem isSubclass_matches (sub super : ClassName) :
    Matches id (isSubclass libraries sub super : LoaderM first Bool)
      (isSubclass libraries sub super : LoaderM second Bool) :=
  .ifElse (.done true) (reaches_matches files libraries super (.start sub))

theorem isAssignable_matches (sub super : FieldType) :
    Matches id (isAssignable libraries sub super : LoaderM first Bool)
      (isAssignable libraries sub super : LoaderM second Bool) := by
  induction sub generalizing super with
  | base type =>
    unfold isAssignable
    exact .ifElse (.done true) (.done false)
  | object sub =>
    unfold isAssignable
    refine .ifElse (.done true) ?_
    cases super with
    | object super => exact isSubclass_matches files libraries sub super
    | base | array => exact .done false
  | array sub ih =>
    unfold isAssignable
    refine .ifElse (.done true) ?_
    cases super with
    | array super => exact .ifElse (ih super) (.done false)
    | base => exact .done false
    | object super => exact .done _

theorem isResultAssignable_matches (sub super : Option FieldType) :
    Matches id (isResultAssignable libraries sub super : LoaderM first Bool)
      (isResultAssignable libraries sub super : LoaderM second Bool) := by
  cases sub <;> cases super
  case some.some sub super => exact isAssignable_matches files libraries sub super
  case none.none => exact .done true
  all_goals exact .done false

theorem isMostGeneral_matches (candidates : List (DeclaredMethod first)) (candidate : DeclaredMethod first) :
    Matches id (isMostGeneral libraries candidates candidate)
      (isMostGeneral libraries (candidates.map (·.transfer files)) (candidate.transfer files)) :=
  .allM candidates fun other =>
    isResultAssignable_matches files libraries other.method.type.result candidate.method.type.result

theorem mostGeneral_matches (candidate : DeclaredMethod first) (others : List (DeclaredMethod first)) :
    Matches (·.transfer files) (mostGeneral libraries candidate others)
      (mostGeneral libraries (candidate.transfer files) (others.map (·.transfer files))) := by
  unfold mostGeneral
  rw [List.isEmpty_map]
  refine .ifElse (.done candidate) ?_
  have search := Matches.findM? (candidate :: others) (isMostGeneral_matches files libraries (candidate :: others))
  refine search.andThen fun found => ?_
  cases found with
  | none => exact .done candidate
  | some chosen => exact .done chosen

theorem nearestOverridden_matches (method : Method) (above : List (LoadedClass first)) :
    Matches (Option.map (·.transfer files)) (nearestOverridden libraries method above)
      (nearestOverridden libraries method (above.map (·.transfer files))) := by
  induction above with
  | nil => exact .done none
  | cons loaded rest ih =>
    rw [List.map_cons, nearestOverridden, nearestOverridden, LoadedClass.overridable_transfer]
    cases loaded.overridable method with
    | nil => exact ih
    | cons candidate others =>
      exact (mostGeneral_matches files libraries candidate others).andThen fun chosen => .done (some chosen)

theorem findOverridden_matches (item : DeclaredMethod first) :
    Matches (Option.map (·.transfer files)) (findOverridden libraries item)
      (findOverridden libraries (item.transfer files)) := by
  refine .ifElse ?_ (.done none)
  exact (superclassesOf_matches files libraries item.owner.file).andThen fun above =>
    nearestOverridden_matches files libraries item.method above

theorem resolve_matches (caller : MethodKey) (reference : MethodRef) :
    Matches (Option.map (·.transfer files)) (resolve libraries caller reference : LoaderM first _)
      (resolve libraries caller reference : LoaderM second _) := by
  refine (loadOptional_matches files libraries reference.owner).andThen fun loaded => ?_
  cases loaded with
  | none => exact (Matches.noting _).andThen fun _ => .done none
  | some loaded =>
    refine (superclassesOf_matches files libraries loaded.file).andThen fun above => ?_
    have found : ((loaded :: above).map (·.transfer files)).findSome? (·.find? reference) =
        ((loaded :: above).findSome? (·.find? reference)).map (·.transfer files) := by
      rw [List.findSome?_map, List.map_findSome?]
      congr 1
      funext candidate
      exact candidate.find?_transfer files reference
    rw [List.map_cons] at found
    simp only [found]
    cases (loaded :: above).findSome? (·.find? reference) with
    | none => exact (Matches.noting _).andThen fun _ => .done none
    | some callee => exact .done (some callee)

theorem callees_matches (settings : Settings) (item : DeclaredMethod first) :
    Matches (List.map (·.transfer files)) (callees settings item) (callees settings (item.transfer files)) := by
  have method : (item.transfer files).method = item.method := rfl
  have key : (item.transfer files).key = item.key := rfl
  have file : (item.transfer files).owner.file = item.owner.file := rfl
  have name : (item.transfer files).owner.name = item.owner.name := rfl
  simp only [callees, method, key, file, name]
  cases settings.checkCalls with
  | false => exact .done []
  | true =>
    cases item.method.body with
    | none => exact .done []
    | some body =>
      simp only
      cases body.calls item.owner.file.pool with
      | error cause => exact .failed _
      | ok references =>
        refine (Matches.mapM references (resolve_matches files settings.libraries item.key)).andThen fun found => ?_
        have moved : (found.map (Option.map (·.transfer files))).filterMap id =
            (found.filterMap id).map (·.transfer files) := by
          rw [List.filterMap_map, List.map_filterMap]
          rfl
        rw [moved]
        exact .done _

end Loader

end PhaseCheck
