import PhaseCheck.Proofs.Steps
import PhaseCheck.Verifier.Callees
import PhaseCheck.Verifier.Overriding

set_option autoImplicit false

namespace PhaseCheck

namespace Artifact

def load (artifact : Artifact) (name : ClassName) : Except CheckError (LoadedClass artifact) :=
  match decoded : artifact.decode name with
  | .error cause => .error cause
  | .ok file =>
    if same : file.name = name then .ok ⟨file, Artifact.decode_name decoded same⟩
    else .error (.nameMismatch name file.name)

variable {artifact : Artifact} {name : ClassName}

theorem load_of_error {cause : CheckError} (failed : artifact.decode name = .error cause) :
    artifact.load name = .error cause := by
  unfold load
  split
  next other found => simpa [found] using failed
  next file found => simp [found] at failed

theorem load_of_ok {file : ClassFile} (decoded : artifact.decode name = .ok file) :
    artifact.load name =
      if same : file.name = name then .ok ⟨file, Artifact.decode_name decoded same⟩
      else .error (.nameMismatch name file.name) := by
  unfold load
  split
  next cause found => simp [found] at decoded
  next other found =>
    have same : other = file := by simpa [found] using decoded
    subst same
    rfl

theorem load_name (loaded : LoadedClass artifact) : artifact.load loaded.name = .ok loaded := by
  unfold LoadedClass.name
  rw [load_of_ok loaded.decoded, dif_pos rfl]

end Artifact

theorem LoadedClass.mem_methods {artifact : Artifact} {loaded : LoadedClass artifact} {item : DeclaredMethod artifact}
    (listed : item ∈ loaded.methods) : item.owner = loaded := by
  obtain ⟨_, _, rfl⟩ := List.mem_map.mp listed
  rfl

namespace LoaderM

variable {artifact : Artifact} {α β : Type}

/-- What an action answers as long as nothing has been loaded. -/
def fresh (action : LoaderM artifact α) : Except CheckError α :=
  answerOf (action .empty)

structure Steady (needs : List (LoadedClass artifact)) (action : LoaderM artifact α)
    (uses : α → List (LoadedClass artifact)) : Prop where
  same : ∀ first second, answerOf (action first) = answerOf (action second)
  grows : ∀ loader, loader.classes ⊆ (stateOf (action loader)).classes
  kept : ∀ {loader value final}, needs ⊆ loader.classes → action loader = .ok value final →
    uses value ⊆ final.classes

namespace Steady

variable {needs more : List (LoadedClass artifact)} {action : LoaderM artifact α}
  {uses : α → List (LoadedClass artifact)}

theorem fresh_eq (steady : Steady needs action uses) {loader final : Loader artifact} {value : α}
    (ran : action loader = .ok value final) : fresh action = .ok value := by
  rw [fresh, steady.same .empty loader, ran]
  rfl

theorem fresh_error (steady : Steady needs action uses) {loader final : Loader artifact} {cause : CheckError}
    (ran : action loader = .error cause final) : fresh action = .error cause := by
  rw [fresh, steady.same .empty loader, ran]
  rfl

theorem ok_of_fresh (steady : Steady needs action uses) {value : α} (answers : fresh action = .ok value)
    (loader : Loader artifact) : ∃ final, action loader = .ok value final := by
  have same : answerOf (action loader) = .ok value := (steady.same loader .empty).trans answers
  cases ran : action loader with
  | ok other final =>
    rw [ran] at same
    cases same
    exact ⟨final, rfl⟩
  | error cause final =>
    rw [ran] at same
    cases same

theorem grows_of_ok (steady : Steady needs action uses) {loader final : Loader artifact} {value : α}
    (ran : action loader = .ok value final) : loader.classes ⊆ final.classes := by
  have grown := steady.grows loader
  rwa [ran] at grown

theorem done {value : α} (known : uses value ⊆ needs) : Steady needs (pure value) uses where
  same _ _ := rfl
  grows _ := List.Subset.refl _
  kept present ran := by cases ran; exact List.Subset.trans known present

theorem failed (cause : CheckError) : Steady needs (throw cause : LoaderM artifact α) uses where
  same _ _ := rfl
  grows _ := List.Subset.refl _
  kept _ ran := by cases ran

theorem weaken (steady : Steady needs action uses) (wider : needs ⊆ more) : Steady more action uses where
  same := steady.same
  grows := steady.grows
  kept present ran := steady.kept (List.Subset.trans wider present) ran

theorem andThen {rest : α → LoaderM artifact β} {result : β → List (LoadedClass artifact)}
    (steady : Steady needs action uses) (next : ∀ value, Steady (needs ++ uses value) (rest value) result) :
    Steady needs (action >>= rest) result where
  same first second := by
    -- From both loaders the first step answers the same, so both runs go on with the same rest or not at all.
    have here := steady.same first second
    cases left : action first <;> cases right : action second <;> rw [left, right] at here <;> cases here
    next value middle other => rw [bind_of_ok left, bind_of_ok right]; exact (next value).same middle other
    next cause middle other => rw [bind_of_error left, bind_of_error right]; rfl
  grows loader := by
    have here := steady.grows loader
    cases ran : action loader <;> rw [ran] at here
    next value middle => rw [bind_of_ok ran]; exact List.Subset.trans here ((next value).grows middle)
    next cause middle => rw [bind_of_error ran]; exact here
  kept present ran := by
    obtain ⟨value, middle, step, rest⟩ := steps_of_bind_ok ran
    have before := List.Subset.trans present (steady.grows_of_ok step)
    exact (next value).kept (List.append_subset.mpr ⟨before, steady.kept present step⟩) rest

theorem ifElse {condition : Prop} [Decidable condition] {other : LoaderM artifact α}
    (yes : condition → Steady needs action uses) (no : ¬ condition → Steady needs other uses) :
    Steady needs (if condition then action else other) uses := by
  by_cases holds : condition
  · rw [if_pos holds]; exact yes holds
  · rw [if_neg holds]; exact no holds

theorem noting (event : Event) : Steady needs (modify (·.note event) : LoaderM artifact PUnit) fun _ => [] where
  same _ _ := rfl
  grows _ := List.Subset.refl _
  kept _ _ := List.nil_subset _

theorem mapM {step : β → LoaderM artifact α} (items : List β) (each : ∀ item, Steady needs (step item) uses) :
    Steady needs (items.mapM step) fun values => values.flatMap uses := by
  induction items with
  | nil => exact done (List.nil_subset _)
  | cons item rest ih =>
    rw [List.mapM_cons]
    refine (each item).andThen fun value => (ih.weaken (List.subset_append_left ..)).andThen fun values => done ?_
    rw [List.flatMap_cons]
    exact List.append_subset.mpr ⟨fun _ used => by simp [used], List.subset_append_right ..⟩

theorem allM {test : β → LoaderM artifact Bool} (items : List β)
    (each : ∀ item, Steady needs (test item) fun _ => []) : Steady needs (items.allM test) fun _ => [] := by
  induction items with
  | nil => exact done (List.nil_subset _)
  | cons item rest ih =>
    rw [List.allM_cons]
    refine (each item).andThen fun holds => ?_
    cases holds
    · exact done (List.nil_subset _)
    · exact ih.weaken (List.subset_append_left ..)

theorem findM? {test : β → LoaderM artifact Bool} (items : List β) (owner : β → LoadedClass artifact)
    (each : ∀ item, Steady needs (test item) fun _ => []) (known : items.map owner ⊆ needs) :
    Steady needs (items.findM? test) fun found => found.toList.map owner := by
  induction items with
  | nil => exact done (List.nil_subset _)
  | cons item rest ih =>
    rw [List.findM?]
    refine (each item).andThen fun holds => ?_
    cases holds
    · exact (ih fun _ present => known (List.mem_cons_of_mem _ present)).weaken (List.subset_append_left ..)
    · refine done fun loaded present => List.mem_append_left _ (known ?_)
      simp only [Option.toList_some, List.map_cons, List.map_nil, List.mem_singleton] at present
      simp [present]

end Steady

end LoaderM

namespace Loader

open LoaderM

variable {artifact : Artifact} {needs : List (LoadedClass artifact)}

theorem answer_load (name : ClassName) (loader : Loader artifact) :
    answerOf (load name loader) = artifact.load name := by
  unfold load
  split
  next loaded found =>
    -- A class that is kept was decoded from the artifact, under the name by which it is found.
    have named : loaded.name = name := by simpa using List.find?_some found
    rw [← named, Artifact.load_name]
    rfl
  next =>
    simp only
    split
    next cause failed => exact (Artifact.load_of_error failed).symm
    next file decoded =>
      rw [Artifact.load_of_ok decoded]
      split <;> rfl

theorem load_steady (name : ClassName) : Steady needs (load name) fun loaded => [loaded] where
  same first second := by rw [answer_load, answer_load]
  grows loader := by
    unfold load
    split
    · exact List.Subset.refl _
    · simp only
      split
      · exact List.Subset.refl _
      · split
        · exact List.subset_cons_self ..
        · exact List.Subset.refl _
  kept {loader loaded final} _ ran := by
    unfold load at ran
    split at ran
    next found =>
      cases ran
      simpa using List.mem_of_find?_eq_some found
    next =>
      simp only at ran
      split at ran
      · cases ran
      · split at ran
        · cases ran; simp [keep]
        · cases ran

-- Loading when needed succeeds with nothing for a class that is missing.
def orAbsent (outcome : Except CheckError (LoadedClass artifact)) : Except CheckError (Option (LoadedClass artifact)) :=
  match outcome with
  | .ok loaded => .ok (some loaded)
  | .error (.missingClass _) => .ok none
  | .error cause => .error cause

theorem answer_loadOptional (libraries : List String) (name : ClassName) (loader : Loader artifact) :
    answerOf (loadOptional libraries name loader) =
      if isLibrary libraries name then .ok none else orAbsent (artifact.load name) := by
  unfold loadOptional
  split
  · rfl
  · rw [← answer_load name loader]
    cases load name loader with
    | ok loaded final => rfl
    | error cause final => cases cause <;> rfl

theorem loadOptional_steady (libraries : List String) (name : ClassName) :
    Steady needs (loadOptional libraries name) Option.toList where
  same first second := by rw [answer_loadOptional, answer_loadOptional]
  grows loader := by
    unfold loadOptional
    split
    · exact List.Subset.refl _
    · have grown := (load_steady name : Steady [] _ _).grows loader
      cases ran : load name loader with
      | ok loaded final => rwa [ran] at grown
      | error cause final =>
        rw [ran] at grown
        cases cause <;> exact grown
  kept {loader found final} present ran := by
    unfold loadOptional at ran
    split at ran
    · cases ran; exact List.nil_subset _
    · cases step : load name loader with
      | ok loaded middle =>
        rw [step] at ran
        cases ran
        exact (load_steady name).kept present step
      | error cause middle =>
        rw [step] at ran
        cases cause <;> cases ran
        exact List.nil_subset _

section

variable {libraries : List String} {seen : List ClassName} {file : ClassFile} {name : ClassName}

theorem climb_of_none (top : file.superclass = none) :
    (climb libraries seen file : LoaderM artifact _) = pure [] := by
  unfold climb
  split
  next => rfl
  next name next => simp [next] at top

theorem climb_of_seen (next : file.superclass = some name) (old : name ∈ seen) :
    (climb libraries seen file : LoaderM artifact _) = throw (.cyclicHierarchy name) := by
  unfold climb
  split
  next top => simp [next] at top
  next other found =>
    have same : name = other := by simpa [next] using found
    subst same
    rw [dif_pos old]

theorem climb_of_new (next : file.superclass = some name) (new : name ∉ seen) :
    (climb libraries seen file : LoaderM artifact _) = do
      match ← loadOptional libraries name with
      | none => return []
      | some above => return above :: (← climb libraries (name :: seen) above.file) := by
  rw [climb]
  split
  next top => simp [next] at top
  next other found =>
    have same : name = other := by simpa [next] using found
    subst same
    exact dif_neg new

end

theorem climb_steady (libraries : List String) (seen : List ClassName) (file : ClassFile) :
    Steady needs (climb libraries seen file) id := by
  -- What a class needs grows on the way up, by the classes below it.
  induction seen, file using @climb.induct artifact generalizing needs with
  | case1 seen file top =>
    rw [climb_of_none top]
    exact .done (List.nil_subset _)
  | case2 seen file name next old =>
    rw [climb_of_seen next old]
    exact .failed _
  | case3 seen file name next new ih =>
    rw [climb_of_new next new]
    refine (loadOptional_steady libraries name).andThen fun found => ?_
    cases found with
    | none => exact .done (List.nil_subset _)
    | some above =>
      refine (ih above).andThen fun others => .done (List.cons_subset.mpr ⟨?_, ?_⟩)
      · simp
      · exact List.subset_append_right ..

theorem superclassesOf_steady (libraries : List String) (file : ClassFile) :
    Steady needs (superclassesOf libraries file) id :=
  climb_steady libraries [file.name] file

section

variable {libraries : List String} {goal name : ClassName} {search : SupertypeSearch} {rest : List ClassName}

theorem reaches_of_nil (finished : search.pending = []) :
    (reaches libraries goal search : LoaderM artifact Bool) = pure false := by
  unfold reaches
  split
  next => rfl
  next pending => simp [finished] at pending

theorem reaches_of_goal (pending : search.pending = goal :: rest) :
    (reaches libraries goal search : LoaderM artifact Bool) = pure true := by
  unfold reaches
  split
  next finished => simp [pending] at finished
  next other others found =>
    have same : goal = other := by rw [pending] at found; exact (List.cons.inj found).1
    rw [if_pos same.symm]

theorem reaches_of_other (pending : search.pending = name :: rest) (different : name ≠ goal) :
    (reaches libraries goal search : LoaderM artifact Bool) = (do
      match ← loadOptional libraries name with
      | none => reaches libraries goal { search with pending := rest }
      | some loaded =>
        reaches libraries goal ({ search with pending := rest }.enterAll loaded.file.supertypes)) := by
  rw [reaches]
  split
  next finished => simp [pending] at finished
  next other others found =>
    rw [pending] at found
    obtain ⟨rfl, rfl⟩ := List.cons.inj found
    exact if_neg different

end

theorem reaches_steady (libraries : List String) (goal : ClassName) (search : SupertypeSearch) :
    Steady needs (reaches libraries goal search) fun _ => [] := by
  induction search using @reaches.induct artifact goal generalizing needs with
  | case1 search finished =>
    rw [reaches_of_nil finished]
    exact .done (List.nil_subset _)
  | case2 search rest pending =>
    rw [reaches_of_goal pending]
    exact .done (List.nil_subset _)
  | case3 search name rest pending different skip enter =>
    rw [reaches_of_other pending different]
    refine (loadOptional_steady libraries name).andThen fun found => ?_
    cases found with
    | none => exact skip
    | some loaded => exact enter loaded

theorem isSubclass_steady (libraries : List String) (sub super : ClassName) :
    Steady needs (isSubclass libraries sub super) fun _ => [] :=
  .ifElse (fun _ => .done (List.nil_subset _)) fun _ => reaches_steady libraries super (.start sub)

theorem isAssignable_steady (libraries : List String) (sub super : FieldType) :
    Steady needs (isAssignable libraries sub super) fun _ => [] := by
  induction sub generalizing super with
  | base type =>
    unfold isAssignable
    exact .ifElse (fun _ => .done (List.nil_subset _)) fun _ => .done (List.nil_subset _)
  | object sub =>
    unfold isAssignable
    refine .ifElse (fun _ => .done (List.nil_subset _)) fun _ => ?_
    cases super with
    | object super => exact isSubclass_steady libraries sub super
    | base | array => exact .done (List.nil_subset _)
  | array sub ih =>
    unfold isAssignable
    refine .ifElse (fun _ => .done (List.nil_subset _)) fun _ => ?_
    cases super with
    | array super => exact .ifElse (fun _ => ih super) fun _ => .done (List.nil_subset _)
    | base | object => exact .done (List.nil_subset _)

theorem isResultAssignable_steady (libraries : List String) (sub super : Option FieldType) :
    Steady needs (isResultAssignable libraries sub super) fun _ => [] := by
  cases sub <;> cases super
  case some.some sub super => exact isAssignable_steady libraries sub super
  all_goals exact .done (List.nil_subset _)

theorem mostGeneral_steady (libraries : List String) (first : DeclaredMethod artifact)
    (others : List (DeclaredMethod artifact)) (known : (first :: others).map (·.owner) ⊆ needs) :
    Steady needs (mostGeneral libraries first others) fun chosen => [chosen.owner] := by
  have head : [first.owner] ⊆ needs := fun _ present => known (by simp_all)
  refine .ifElse (fun _ => .done head) fun _ => ?_
  refine Steady.andThen (Steady.findM? _ (·.owner) (fun candidate => ?_) known) fun found => .done ?_
  · exact .allM _ fun other => isResultAssignable_steady libraries _ _
  · cases found with
    | none => exact List.Subset.trans head (List.subset_append_left ..)
    | some chosen => exact List.subset_append_right ..

theorem nearestOverridden_steady (libraries : List String) (method : Method) (above : List (LoadedClass artifact))
    (known : above ⊆ needs) :
    Steady needs (nearestOverridden libraries method above) fun found => found.toList.map (·.owner) := by
  induction above with
  | nil => exact .done (List.nil_subset _)
  | cons loaded rest ih =>
    unfold nearestOverridden
    split
    next => exact ih fun _ present => known (List.mem_cons_of_mem _ present)
    next first others candidates =>
      refine (mostGeneral_steady libraries first others ?_).andThen fun chosen => .done ?_
      · rw [← candidates]
        intro owner present
        obtain ⟨item, candidate, rfl⟩ := List.mem_map.mp present
        exact known (by simp [LoadedClass.mem_methods (List.mem_filter.mp candidate).1])
      · exact List.subset_append_right ..

theorem findOverridden_steady (libraries : List String) (item : DeclaredMethod artifact) :
    Steady needs (findOverridden libraries item) fun found => found.toList.map (·.owner) :=
  .ifElse
    (fun _ => (superclassesOf_steady libraries item.owner.file).andThen fun above =>
      nearestOverridden_steady libraries item.method above (List.subset_append_right ..))
    fun _ => .done (List.nil_subset _)

theorem resolve_steady (libraries : List String) (caller : MethodKey) (reference : MethodRef) :
    Steady needs (resolve libraries caller reference) fun found => found.toList.map (·.owner) := by
  refine (loadOptional_steady libraries reference.owner).andThen fun loaded => ?_
  cases loaded with
  | none => exact (Steady.noting _).andThen fun _ => .done (List.nil_subset _)
  | some loaded =>
    refine (superclassesOf_steady libraries loaded.file).andThen fun above => ?_
    cases resolved : (loaded :: above).findSome? (·.find? reference) with
    | none => exact (Steady.noting _).andThen fun _ => .done (List.nil_subset _)
    | some callee =>
      -- The callee may be declared above the class that the call names.
      obtain ⟨declaring, present, found⟩ := List.exists_of_findSome?_eq_some resolved
      refine .done fun owner same => ?_
      have declared := LoadedClass.mem_methods (List.mem_of_find?_eq_some found)
      have here : owner = declaring := by simpa [declared] using same
      simp_all

theorem callees_steady (settings : Settings) (item : DeclaredMethod artifact) :
    Steady needs (callees settings item) fun found => found.map (·.owner) := by
  unfold callees
  split
  next body _ _ =>
    split
    next => exact .failed _
    next references _ =>
      refine (Steady.mapM references fun reference => resolve_steady settings.libraries item.key reference).andThen
        fun found => .done fun owner present => List.mem_append_right _ ?_
      obtain ⟨callee, kept, rfl⟩ := List.mem_map.mp present
      obtain ⟨outcome, answered, same⟩ := List.mem_filterMap.mp kept
      exact List.mem_flatMap.mpr ⟨outcome, answered, by simp_all⟩
  next => exact .done (List.nil_subset _)

end Loader

end PhaseCheck
