import PhaseCheck.Proofs.Hierarchy.Superclasses
import PhaseCheck.Proofs.Verifier.Overriding
import PhaseCheck.Proofs.Verifier.Refinement

set_option autoImplicit false

namespace PhaseCheck

namespace Artifact

variable {artifact : Artifact} {libraries : List String} {file top : ClassFile} {loaded : LoadedClass artifact}
  {below above : List (LoadedClass artifact)} {passed others : List ClassName}

theorem Lineage.behind (lineage : artifact.Lineage libraries file (below ++ loaded :: above) top) :
    artifact.Lineage libraries loaded.file above top := by
  induction below generalizing file with
  | nil =>
    cases lineage with
    | up _ _ rest => exact rest
  | cons first others ih =>
    cases lineage with
    | up _ _ rest => exact ih rest

theorem Concludes.fewer (ends : artifact.Concludes libraries passed below top (.ok below)) (fewer : others ⊆ passed)
    (above : List (LoadedClass artifact)) : artifact.Concludes libraries others above top (.ok above) := by
  cases ends with
  | root nothing => exact .root nothing
  | unknown next new absent => exact .unknown next (fun old => new (fewer old)) absent

end Artifact

namespace Loader

variable {artifact : Artifact} {libraries : List String} {file : ClassFile} {loader : Loader artifact}

theorem lineage_of_superclassesOf {above : List (LoadedClass artifact)}
    (climbed : answerOf (superclassesOf libraries file loader) = .ok above) :
    ∃ top, artifact.Lineage libraries file above top ∧ (file.name :: above.map LoadedClass.name).Nodup ∧
      artifact.Concludes libraries (file.name :: above.map LoadedClass.name) above top (.ok above) := by
  obtain ⟨others, top, outcome, lineage, distinct, ends⟩ :=
    (Artifact.Lineage.here file : artifact.Lineage libraries file [] file).exists_end (List.nodup_singleton _)
  rw [answer_superclassesOf lineage distinct ends loader] at climbed
  subst climbed
  cases ends with
  | root nothing => exact ⟨top, lineage, distinct, .root nothing⟩
  | unknown next new absent => exact ⟨top, lineage, distinct, .unknown next new absent⟩

theorem superclassesOf_behind {below above : List (LoadedClass artifact)} {loaded : LoadedClass artifact}
    (climbed : answerOf (superclassesOf libraries file loader) = .ok (below ++ loaded :: above))
    (other : Loader artifact) : answerOf (superclassesOf libraries loaded.file other) = .ok above := by
  obtain ⟨top, lineage, distinct, ends⟩ := lineage_of_superclassesOf climbed
  have suffix : loaded.name :: above.map LoadedClass.name <:+
      file.name :: (below ++ loaded :: above).map LoadedClass.name :=
    ⟨file.name :: below.map LoadedClass.name, by simp⟩
  exact answer_superclassesOf lineage.behind (distinct.sublist suffix.sublist) (ends.fewer suffix.subset above) other

-- What is overridden stands in a superclass. If the superclasses are not found, then nothing is.
theorem superclassesOf_of_overridden {method : Method} {chosen : DeclaredMethod artifact} {final : Loader artifact}
    (found : findOverriddenOf libraries file method loader = .ok (some chosen) final) :
    ∃ below above, ∀ other, answerOf (superclassesOf libraries file other) = .ok (below ++ chosen.owner :: above) := by
  cases virtual : method.isVirtual with
  | false =>
    rw [findOverriddenOf_of_fixed virtual] at found
    cases found
  | true =>
    rw [findOverriddenOf_of_virtual virtual] at found
    obtain ⟨supers, middle, climbed, nearest⟩ := steps_of_bind_ok found
    have answered : answerOf (nearestOverridden libraries method supers middle) = .ok (some chosen) := by
      rw [nearest]
      rfl
    obtain ⟨below, above, rfl, _⟩ := ((nearestOverridden_meets libraries method supers).right answered).2 chosen rfl
      |>.nearest
    refine ⟨below, above, fun other => ?_⟩
    rw [(superclassesOf_steady libraries file : LoaderM.Steady [] _ _).same other loader, climbed]
    rfl

end Loader

namespace Verifier

variable {artifact : Artifact} {settings : Settings} {file : ClassFile} {method : Method}
  {verifier middle : Verifier artifact} {declaration : Declaration} {above : DeclaredMethod artifact}

inductive Turn (artifact : Artifact) where
  | ended (outcome : EStateM.Result CheckError (Verifier artifact) (Option Phase))
  | upwards (declaration : Declaration) (above : DeclaredMethod artifact) (verifier : Verifier artifact)

-- The first part of asking for a phase. The class need not belong to the artifact, nor declare the method.
def turn (settings : Settings) (file : ClassFile) (method : Method) (verifier : Verifier artifact) : Turn artifact :=
  match verifier.phase? method.key with
  | some phase => .ended (.ok phase verifier)
  | none =>
    match AnnotationTree.ofAttributes file.pool method.attributes with
    | .error cause => .ended (.error (.badClass file.name cause) verifier)
    | .ok notes =>
      let declaration := settings.declaration notes
      let verifier := verifier.settle method.key declaration
      match Loader.findOverriddenOf settings.libraries file method verifier.loader with
      | .error cause loader => .ended (.error cause { verifier with loader })
      | .ok none loader =>
        .ended (.ok declaration.phase
          ({ verifier with loader }.warnAll (if declaration.marked then [.nothingOverridden method.key] else [])))
      | .ok (some above) loader =>
        .upwards declaration above ({ verifier with loader }.note (.overrides method.key above.key))

def compared (key : MethodKey) (declaration : Declaration) (above : MethodKey) :
    EStateM.Result CheckError (Verifier artifact) (Option Phase) →
      EStateM.Result CheckError (Verifier artifact) (Option Phase)
  | .ok phase verifier =>
    .ok declaration.phase (verifier.warnAll (overrideWarnings key declaration.phase above phase))
  | .error cause verifier => .error cause verifier

/-- Asking for a phase comes to an outcome, where asking for phases of methods above is nested that deep. -/
inductive Answers (settings : Settings) : Nat → ClassFile → Method → Verifier artifact →
    EStateM.Result CheckError (Verifier artifact) (Option Phase) → Prop where
  | ended {file : ClassFile} {method : Method} {verifier : Verifier artifact}
      {outcome : EStateM.Result CheckError (Verifier artifact) (Option Phase)}
      (here : turn settings file method verifier = .ended outcome) : Answers settings 0 file method verifier outcome
  | upwards {depth : Nat} {file : ClassFile} {method : Method} {verifier middle : Verifier artifact}
      {declaration : Declaration} {above : DeclaredMethod artifact}
      {outcome : EStateM.Result CheckError (Verifier artifact) (Option Phase)}
      (here : turn settings file method verifier = .upwards declaration above middle)
      (answers : Answers settings depth above.owner.file above.method middle outcome) :
      Answers settings (depth + 1) file method verifier (compared method.key declaration above.key outcome)

def Turn.conclude (key : MethodKey)
    (ask : DeclaredMethod artifact → Verifier artifact → EStateM.Result CheckError (Verifier artifact) (Option Phase)) :
    Turn artifact → EStateM.Result CheckError (Verifier artifact) (Option Phase)
  | .ended outcome => outcome
  | .upwards declaration above verifier => compared key declaration above.key (ask above verifier)

theorem phaseOf_eq_conclude (settings : Settings) (item : DeclaredMethod artifact) (verifier : Verifier artifact) :
    phaseOf settings item verifier =
      (turn settings item.owner.file item.method verifier).conclude item.key (phaseOf settings) := by
  unfold turn
  split
  next phase known => exact phaseOf_of_known known
  next unknown =>
    rw [phaseOf_of_unknown unknown]
    cases read : AnnotationTree.ofAttributes item.owner.file.pool item.method.attributes with
    | error cause =>
      rw [DeclaredMethod.declaration_of_error read]
      rfl
    | ok notes =>
      rw [DeclaredMethod.declaration_of_ok read]
      simp only [DeclaredMethod.key, Loader.findOverridden]
      cases Loader.findOverriddenOf settings.libraries item.owner.file item.method _ with
      | error cause loader => rfl
      | ok found loader =>
        cases found with
        | none => rfl
        | some above =>
          simp only [Turn.conclude, DeclaredMethod.key]
          cases phaseOf settings above _ <;> rfl

theorem findOverriddenOf_of_upwards (here : turn settings file method verifier = .upwards declaration above middle) :
    ∃ loader final : Loader artifact,
      Loader.findOverriddenOf settings.libraries file method loader = .ok (some above) final := by
  unfold turn at here
  split at here
  next => cases here
  next =>
    split at here
    next => cases here
    next =>
      dsimp only at here
      split at here
      next => cases here
      next => cases here
      next found =>
        cases here
        exact ⟨_, _, found⟩

def height (artifact : Artifact) (libraries : List String) (file : ClassFile) : Nat :=
  match LoaderM.fresh (Loader.superclassesOf libraries file : LoaderM artifact _) with
  | .ok supers => supers.length
  | .error _ => 0

theorem height_of_ok {libraries : List String} {loader : Loader artifact} {supers : List (LoadedClass artifact)}
    (climbed : answerOf (Loader.superclassesOf libraries file loader) = .ok supers) :
    height artifact libraries file = supers.length := by
  rw [height, LoaderM.fresh, (Loader.superclassesOf_steady libraries file : LoaderM.Steady [] _ _).same .empty loader,
    climbed]

theorem height_of_error {libraries : List String} {loader : Loader artifact} {cause : CheckError}
    (failed : answerOf (Loader.superclassesOf libraries file loader) = .error cause) :
    height artifact libraries file = 0 := by
  rw [height, LoaderM.fresh, (Loader.superclassesOf_steady libraries file : LoaderM.Steady [] _ _).same .empty loader,
    failed]

theorem superclasses_of_upwards (here : turn settings file method verifier = .upwards declaration above middle) :
    ∃ below rest : List (LoadedClass artifact),
      (∀ other, answerOf (Loader.superclassesOf settings.libraries file other) = .ok (below ++ above.owner :: rest)) ∧
      ∀ other, answerOf (Loader.superclassesOf settings.libraries above.owner.file other) = .ok rest := by
  obtain ⟨loader, final, found⟩ := findOverriddenOf_of_upwards here
  obtain ⟨below, rest, climbed⟩ := Loader.superclassesOf_of_overridden found
  exact ⟨below, rest, climbed, Loader.superclassesOf_behind (climbed loader)⟩

theorem height_lt_of_upwards (here : turn settings file method verifier = .upwards declaration above middle) :
    height artifact settings.libraries above.owner.file < height artifact settings.libraries file := by
  obtain ⟨below, rest, climbed, later⟩ := superclasses_of_upwards here
  rw [height_of_ok (later .empty), height_of_ok (climbed .empty), List.length_append, List.length_cons]
  omega

namespace Answers

variable {depth : Nat} {outcome : EStateM.Result CheckError (Verifier artifact) (Option Phase)}

theorem depth_le (answers : Answers settings depth file method verifier outcome) :
    depth ≤ height artifact settings.libraries file := by
  induction answers with
  | ended => exact Nat.zero_le _
  | upwards here _ ih => exact Nat.succ_le_of_lt (Nat.lt_of_le_of_lt ih (height_lt_of_upwards here))

theorem unique {other : Nat} {result : EStateM.Result CheckError (Verifier artifact) (Option Phase)}
    (answers : Answers settings depth file method verifier outcome)
    (again : Answers settings other file method verifier result) : depth = other ∧ outcome = result := by
  induction answers generalizing other result with
  | ended here =>
    cases again with
    | ended there =>
      cases here.symm.trans there
      exact ⟨rfl, rfl⟩
    | upwards there => cases here.symm.trans there
  | upwards here _ ih =>
    cases again with
    | ended there => cases here.symm.trans there
    | upwards there inside =>
      cases here.symm.trans there
      obtain ⟨rfl, rfl⟩ := ih inside
      exact ⟨rfl, rfl⟩

theorem phaseOf_eq (answers : Answers settings depth file method verifier outcome) {item : DeclaredMethod artifact}
    (owned : item.owner.file = file) (same : item.method = method) : phaseOf settings item verifier = outcome := by
  induction answers generalizing item with
  | ended here =>
    subst owned same
    rw [phaseOf_eq_conclude, here]
    rfl
  | upwards here _ ih =>
    subst owned same
    rw [phaseOf_eq_conclude, here, Turn.conclude, ih rfl rfl]
    rfl

end Answers

-- Asking does not go on for ever. It is ended, or it goes on where fewer superclasses are left.
theorem exists_answers (settings : Settings) (file : ClassFile) (method : Method) (verifier : Verifier artifact) :
    ∃ depth outcome, Answers settings depth file method verifier outcome := by
  induction left : height artifact settings.libraries file using Nat.strongRecOn generalizing file method verifier with
  | _ left ih =>
    cases here : turn settings file method verifier with
    | ended outcome => exact ⟨0, outcome, .ended here⟩
    | upwards declaration above middle =>
      have fewer := height_lt_of_upwards here
      rw [left] at fewer
      obtain ⟨depth, outcome, answers⟩ := ih _ fewer above.owner.file above.method middle rfl
      exact ⟨depth + 1, _, .upwards here answers⟩

/-- The superclasses of a superclass are those that come after it. So whatever phases are known, and whether or not there
are circles in the artifact, asking for a phase comes to an end. It is never nested deeper than there are superclasses,
since a method above is only asked about where fewer are left. -/
theorem getPhase_nested_within_superclasses (artifact : Artifact) (settings : Settings) (verifier : Verifier artifact)
    (file : ClassFile) (method : Method) :
    (∀ loader supers, answerOf (Loader.superclassesOf settings.libraries file loader) = .ok supers →
      ∀ (below above : List (LoadedClass artifact)) loaded, supers = below ++ loaded :: above →
        ∀ other, answerOf (Loader.superclasses settings.libraries loaded other) = .ok above) ∧
    (∀ declaration above middle, turn settings file method verifier = .upwards declaration above middle →
      ∃ supers rest : List (LoadedClass artifact),
        (∀ other, answerOf (Loader.superclassesOf settings.libraries file other) = .ok supers) ∧
        (∀ other, answerOf (Loader.superclasses settings.libraries above.owner other) = .ok rest) ∧
        rest.length < supers.length) ∧
    ∃ depth outcome,
      (∀ other result, Answers settings other file method verifier result ↔ other = depth ∧ result = outcome) ∧
      (∀ (loader : Loader artifact) supers,
        answerOf (Loader.superclassesOf settings.libraries file loader) = .ok supers → depth ≤ supers.length) ∧
      (∀ (loader : Loader artifact) cause,
        answerOf (Loader.superclassesOf settings.libraries file loader) = .error cause → depth = 0) ∧
      ∀ item : DeclaredMethod artifact, item.owner.file = file → item.method = method →
        getPhase settings item verifier = outcome := by
  refine ⟨?_, ?_, ?_⟩
  · rintro loader _ climbed below above loaded rfl other
    exact Loader.superclassesOf_behind climbed other
  · intro declaration above middle here
    obtain ⟨below, rest, climbed, later⟩ := superclasses_of_upwards here
    refine ⟨_, rest, climbed, later, ?_⟩
    rw [List.length_append, List.length_cons]
    omega
  · obtain ⟨depth, outcome, answers⟩ := exists_answers settings file method verifier
    have bound := answers.depth_le
    refine ⟨depth, outcome, ?_, ?_, ?_, ?_⟩
    · intro other result
      constructor
      · exact fun again => again.unique answers
      · rintro ⟨rfl, rfl⟩
        exact answers
    · intro loader supers climbed
      rwa [height_of_ok climbed] at bound
    · intro loader cause failed
      rw [height_of_error failed] at bound
      exact Nat.le_zero.mp bound
    · intro item owned same
      exact answers.phaseOf_eq owned same

def Turn.isUpwards : Turn artifact → Bool
  | .ended _ => false
  | .upwards .. => true

theorem getPhase_nested_within_superclasses_once :
    ∃ (item above : DeclaredMethod mismatchedArtifact) (declaration : Declaration)
        (middle : Verifier mismatchedArtifact) (supers : List (LoadedClass mismatchedArtifact))
        (outcome : EStateM.Result CheckError (Verifier mismatchedArtifact) (Option Phase)),
      turn letterSettings item.owner.file item.method .empty = .upwards declaration above middle ∧
      (∀ other, answerOf (Loader.superclassesOf [] item.owner.file other) = .ok supers) ∧ supers.length = 1 ∧
      (∀ other, answerOf (Loader.superclasses [] above.owner other) = .ok []) ∧
      Answers letterSettings 1 item.owner.file item.method .empty outcome ∧
      getPhase letterSettings item .empty = outcome := by
  have checked : ((mismatchedArtifact.listed.toOption.getD []).any fun item =>
      (turn letterSettings item.owner.file item.method (.empty : Verifier mismatchedArtifact)).isUpwards &&
        height mismatchedArtifact [] item.owner.file == 1) = true := by decide +kernel
  obtain ⟨item, _, goes⟩ := List.any_eq_true.mp checked
  obtain ⟨goesUp, one⟩ := Bool.and_eq_true_iff.mp goes
  obtain ⟨_, shorter, depth, outcome, exactly, within, _, same⟩ :=
    getPhase_nested_within_superclasses mismatchedArtifact letterSettings .empty item.owner.file item.method
  have answers := (exactly depth outcome).mpr ⟨rfl, rfl⟩
  cases here : turn letterSettings item.owner.file item.method (.empty : Verifier mismatchedArtifact) with
  | ended other =>
    rw [here] at goesUp
    cases goesUp
  | upwards declaration above middle =>
    obtain ⟨supers, rest, climbed, further, fewer⟩ := shorter declaration above middle here
    have single : supers.length = 1 := (height_of_ok (climbed .empty)).symm.trans (eq_of_beq one)
    have bound := within .empty supers (climbed .empty)
    obtain rfl : rest = [] := List.length_eq_zero_iff.mp (by omega)
    cases answers with
    | ended there => cases here.symm.trans there
    | @upwards inner _ _ _ _ _ _ _ there inside =>
      obtain rfl : inner = 0 := by omega
      exact ⟨item, above, declaration, middle, supers, _, here, climbed, single, further, .upwards there inside,
        same item rfl rfl⟩

end Verifier

end PhaseCheck
