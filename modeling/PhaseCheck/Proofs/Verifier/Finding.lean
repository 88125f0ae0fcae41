import PhaseCheck.Proofs.Verifier.Keys
import PhaseCheck.Proofs.Verifier.Meaning

set_option autoImplicit false

namespace PhaseCheck

namespace Verifier

variable {artifact : Artifact}

@[simp] theorem note_warnings (verifier : Verifier artifact) (event : Event) :
    (verifier.note event).warnings = verifier.warnings := rfl

@[simp] theorem note_phases (verifier : Verifier artifact) (event : Event) :
    (verifier.note event).phases = verifier.phases := rfl

@[simp] theorem note_classes (verifier : Verifier artifact) (event : Event) :
    (verifier.note event).loader.classes = verifier.loader.classes := rfl

@[simp] theorem warn_warnings (verifier : Verifier artifact) (warning : Warning) :
    (verifier.warn warning).warnings = verifier.warnings ++ [warning] := rfl

@[simp] theorem warn_phases (verifier : Verifier artifact) (warning : Warning) :
    (verifier.warn warning).phases = verifier.phases := rfl

@[simp] theorem warn_classes (verifier : Verifier artifact) (warning : Warning) :
    (verifier.warn warning).loader.classes = verifier.loader.classes := rfl

@[simp] theorem warnAll_warnings (verifier : Verifier artifact) (warnings : List Warning) :
    (verifier.warnAll warnings).warnings = verifier.warnings ++ warnings := by
  induction warnings generalizing verifier with
  | nil => simp [warnAll]
  | cons warning rest ih =>
    have tail := ih (verifier.warn warning)
    simpa [warnAll] using tail

@[simp] theorem warnAll_phases (verifier : Verifier artifact) (warnings : List Warning) :
    (verifier.warnAll warnings).phases = verifier.phases := by
  induction warnings generalizing verifier with
  | nil => rfl
  | cons warning rest ih => exact ih (verifier.warn warning)

@[simp] theorem warnAll_classes (verifier : Verifier artifact) (warnings : List Warning) :
    (verifier.warnAll warnings).loader.classes = verifier.loader.classes := by
  induction warnings generalizing verifier with
  | nil => rfl
  | cons warning rest ih => exact ih (verifier.warn warning)

@[simp] theorem settle_classes (verifier : Verifier artifact) (key : MethodKey) (declaration : Declaration) :
    (verifier.settle key declaration).loader.classes = verifier.loader.classes :=
  warnAll_classes ..

@[simp] theorem settle_warnings (verifier : Verifier artifact) (key : MethodKey) (declaration : Declaration) :
    (verifier.settle key declaration).warnings =
      verifier.warnings ++ if 1 < declaration.phases.length then [.severalPhases key declaration.phases] else [] :=
  warnAll_warnings ..

theorem phase?_settle (verifier : Verifier artifact) (key other : MethodKey) (declaration : Declaration) :
    (verifier.settle key declaration).phase? other =
      if key = other then some declaration.phase else verifier.phase? other := by
  by_cases same : key = other <;> simp [phase?, settle, same]

section

variable {settings : Settings} {item above : DeclaredMethod artifact} {declaration : Declaration}

theorem phase_of_declaration (declared : item.declaration settings = .ok declaration) :
    item.phase settings = .ok declaration.phase := by
  simp only [DeclaredMethod.phase, declared, bind, Except.bind]
  rfl

theorem ownWarnings_of_none (declared : item.declaration settings = .ok declaration)
    (nothing : item.overridden settings = .ok none) :
    item.ownWarnings settings =
      .ok ((if 1 < declaration.phases.length then [.severalPhases item.key declaration.phases] else []) ++
        if declaration.marked then [.nothingOverridden item.key] else []) := by
  simp only [DeclaredMethod.ownWarnings, declared, nothing, bind, Except.bind]
  rfl

theorem ownWarnings_of_some {phase : Option Phase} (declared : item.declaration settings = .ok declaration)
    (overrides : item.overridden settings = .ok (some above)) (found : above.phase settings = .ok phase) :
    item.ownWarnings settings =
      .ok ((if 1 < declaration.phases.length then [.severalPhases item.key declaration.phases] else []) ++
        overrideWarnings item.key declaration.phase above.key phase) := by
  simp only [DeclaredMethod.ownWarnings, declared, overrides, found, bind, Except.bind, Declaration.phase]
  cases declaration.phases.head? <;> cases phase <;> simp [overrideWarnings] <;> rfl

end

/-- The methods in `done` are those whose phases have been found out, each with its own. -/
structure Tracks (settings : Settings) (verifier : Verifier artifact) (done : List (DeclaredMethod artifact)) :
    Prop where
  recalled : ∀ {key phase}, verifier.phase? key = some phase →
    ∃ item ∈ done, item.key = key ∧ item.phase settings = .ok phase
  settled : ∀ item ∈ done, item.key ∈ verifier.settled
  distinct : (done.map DeclaredMethod.key).Nodup

namespace Tracks

variable {settings : Settings} {verifier other : Verifier artifact} {done : List (DeclaredMethod artifact)}

theorem empty : Tracks settings (.empty : Verifier artifact) [] where
  recalled known := by cases known
  settled := by simp
  distinct := .nil

theorem of_phases (tracks : Tracks settings verifier done) (same : other.phases = verifier.phases) :
    Tracks settings other done where
  recalled known := tracks.recalled (by simpa [phase?, same] using known)
  settled item present := by simpa [Verifier.settled, same] using tracks.settled item present
  distinct := tracks.distinct

theorem settle (tracks : Tracks settings verifier done) {item : DeclaredMethod artifact} {declaration : Declaration}
    (unknown : verifier.phase? item.key = none) (declared : item.declaration settings = .ok declaration) :
    Tracks settings (verifier.settle item.key declaration) (done ++ [item]) where
  recalled {key phase} known := by
    rw [phase?_settle] at known
    split at known
    next same =>
      cases known
      exact ⟨item, by simp, same, phase_of_declaration declared⟩
    next =>
      obtain ⟨found, present, holds⟩ := tracks.recalled known
      exact ⟨found, List.mem_append_left _ present, holds⟩
  settled found present := by
    rw [settled_settle]
    rcases List.mem_append.mp present with earlier | here
    · exact List.mem_cons_of_mem _ (tracks.settled found earlier)
    · simp_all
  distinct := by
    -- The phases of all methods that are done are known, and that of this one is not.
    have new : item.key ∉ done.map DeclaredMethod.key := by
      intro present
      obtain ⟨found, earlier, same⟩ := List.mem_map.mp present
      exact not_mem_settled unknown (same ▸ tracks.settled found earlier)
    simpa [List.nodup_append, tracks.distinct] using new

end Tracks

/-- A part of a run that finds out the phases of `new` methods and has `said` something besides. -/
structure Step (settings : Settings) (holds : DeclaredMethod artifact → Prop) (before after : Verifier artifact)
    (done new : List (DeclaredMethod artifact)) (said : List Warning) : Prop where
  tracks : Tracks settings after (done ++ new)
  reached : ∀ item ∈ new, holds item
  closed : ∀ item ∈ new, ∀ {above}, item.overridden settings = .ok (some above) → above ∈ done ++ new
  warned : ∃ own, tellEach (DeclaredMethod.ownWarnings settings) new = .ok own ∧
    after.warnings.Perm (before.warnings ++ (said ++ own))

namespace Step

variable {settings : Settings} {holds : DeclaredMethod artifact → Prop} {before middle after : Verifier artifact}
  {done new later : List (DeclaredMethod artifact)} {said more : List Warning}

theorem refl (tracks : Tracks settings before done) : Step settings holds before before done [] [] where
  tracks := by simpa using tracks
  reached := by simp
  closed := by simp
  warned := ⟨[], rfl, by simp⟩

theorem trans (first : Step settings holds before middle done new said)
    (second : Step settings holds middle after (done ++ new) later more) :
    Step settings holds before after done (new ++ later) (said ++ more) where
  tracks := by simpa using second.tracks
  reached item present := by
    rcases List.mem_append.mp present with earlier | later
    · exact first.reached item earlier
    · exact second.reached item later
  closed item present above overrides := by
    rcases List.mem_append.mp present with earlier | later
    · have known := first.closed item earlier overrides
      simp only [List.mem_append] at known ⊢
      tauto
    · simpa using second.closed item later overrides
  warned := by
    obtain ⟨own, firstOwn, firstWarned⟩ := first.warned
    obtain ⟨other, secondOwn, secondWarned⟩ := second.warned
    refine ⟨own ++ other, ?_, ?_⟩
    · rw [tellEach_append, firstOwn, secondOwn]
      rfl
    · refine secondWarned.trans ((firstWarned.append_right _).trans ?_)
      simp only [List.append_assoc]
      exact ((List.perm_append_comm_assoc ..).append_left _).append_left _

theorem say (step : Step settings holds before middle done new []) (phases : after.phases = middle.phases)
    (warnings : after.warnings = middle.warnings ++ said) : Step settings holds before after done new said where
  tracks := step.tracks.of_phases phases
  reached := step.reached
  closed := step.closed
  warned := by
    obtain ⟨own, judged, warned⟩ := step.warned
    refine ⟨own, judged, ?_⟩
    rw [warnings]
    refine (warned.append_right _).trans ?_
    simp only [List.nil_append, List.append_assoc]
    exact List.perm_append_comm.append_left _

-- Judging a method: `several` is said before the methods above it are judged, and `rest` after that.
theorem judge {item : DeclaredMethod artifact} {several rest : List Warning}
    (step : Step settings holds middle after (done ++ [item]) new [])
    (own : item.ownWarnings settings = .ok (several ++ rest)) (start : holds item)
    (settled : before.warnings ++ several = middle.warnings) {last : Verifier artifact}
    (phases : last.phases = after.phases) (warnings : last.warnings = after.warnings ++ rest)
    (closed : ∀ {above}, item.overridden settings = .ok (some above) → above ∈ done ++ item :: new) :
    Step settings holds before last done (item :: new) [] where
  tracks := by simpa using step.tracks.of_phases phases
  reached := by simpa using ⟨start, step.reached⟩
  closed other present above overrides := by
    rcases List.mem_cons.mp present with rfl | later
    · exact closed overrides
    · simpa using step.closed other later overrides
  warned := by
    obtain ⟨others, judged, warned⟩ := step.warned
    refine ⟨(several ++ rest) ++ others, ?_, ?_⟩
    · rw [tellEach_cons, own, judged]
      rfl
    · -- What is said about the methods above stands between the two parts of what is said about this one.
      rw [warnings]
      refine (warned.append_right _).trans ?_
      simp only [← settled, List.append_assoc, List.nil_append]
      exact (List.perm_append_comm.append_left _).append_left _

end Step

section

variable {settings : Settings} {item : DeclaredMethod artifact} {verifier : Verifier artifact}

theorem phaseOf_of_known {phase : Option Phase} (known : verifier.phase? item.key = some phase) :
    phaseOf settings item verifier = .ok phase verifier := by
  unfold phaseOf
  split
  next other found => rw [known] at found; cases found; rfl
  next unknown => rw [known] at unknown; cases unknown

theorem phaseOf_of_unknown (unknown : verifier.phase? item.key = none) :
    phaseOf settings item verifier =
      match item.declaration settings with
      | .error cause => .error cause verifier
      | .ok declaration =>
        let verifier := verifier.settle item.key declaration
        match Loader.findOverridden settings.libraries item verifier.loader with
        | .error cause loader => .error cause { verifier with loader }
        | .ok none loader =>
          .ok declaration.phase
            ({ verifier with loader }.warnAll (if declaration.marked then [.nothingOverridden item.key] else []))
        | .ok (some overridden) loader =>
          match phaseOf settings overridden ({ verifier with loader }.note (.overrides item.key overridden.key)) with
          | .error cause verifier => .error cause verifier
          | .ok phase verifier =>
            .ok declaration.phase
              (verifier.warnAll (overrideWarnings item.key declaration.phase overridden.key phase)) := by
  rw [phaseOf]
  split
  next other found => rw [unknown] at found; cases found
  next =>
    rw [DeclaredMethod.declaration_eq]
    cases item.annotations <;> rfl

-- Whatever is said about a call is said after the phase of the callee has been found out.
theorem verifyCall_of_ok {callee : DeclaredMethod artifact} {found : Option Phase} {middle : Verifier artifact}
    (finding : getPhase settings callee verifier = .ok found middle) (caller : MethodKey) (phase : Phase) :
    verifyCall settings caller phase callee verifier =
      .ok () (middle.warnAll (DeclaredMethod.mismatches caller phase callee.key found)) := by
  rw [verifyCall, bind_of_ok finding]
  cases found with
  | none => rfl
  | some other =>
    by_cases same : other = phase
    · simp only [same, ne_eq, not_true_eq_false, if_false, DeclaredMethod.mismatches, if_true]
      rfl
    · simp only [same, ne_eq, not_false_eq_true, if_true, DeclaredMethod.mismatches, if_false]
      rfl

end

/-- How the phase of a method is found out: it is recalled, or declared by a method that overrides nothing,
or declared by a method below another whose phase is found out next. -/
inductive Finds (settings : Settings) :
    DeclaredMethod artifact → Verifier artifact → Option Phase → Verifier artifact → Prop where
  | known {item : DeclaredMethod artifact} {verifier : Verifier artifact} {phase : Option Phase}
      (recalled : verifier.phase? item.key = some phase) : Finds settings item verifier phase verifier
  | first {item : DeclaredMethod artifact} {verifier : Verifier artifact} {declaration : Declaration}
      {loader : Loader artifact} (unknown : verifier.phase? item.key = none)
      (declared : item.declaration settings = .ok declaration)
      (found : Loader.findOverridden settings.libraries item (verifier.settle item.key declaration).loader =
        .ok none loader) :
      Finds settings item verifier declaration.phase
        ({ verifier.settle item.key declaration with loader }.warnAll
          (if declaration.marked then [.nothingOverridden item.key] else []))
  | overriding {item above : DeclaredMethod artifact} {verifier middle : Verifier artifact} {declaration : Declaration}
      {loader : Loader artifact} {phase : Option Phase} (unknown : verifier.phase? item.key = none)
      (declared : item.declaration settings = .ok declaration)
      (found : Loader.findOverridden settings.libraries item (verifier.settle item.key declaration).loader =
        .ok (some above) loader)
      (next : Finds settings above
        ({ verifier.settle item.key declaration with loader }.note (.overrides item.key above.key)) phase middle) :
      Finds settings item verifier declaration.phase
        (middle.warnAll (overrideWarnings item.key declaration.phase above.key phase))

theorem finds_of_phaseOf {settings : Settings} {item : DeclaredMethod artifact} {verifier after : Verifier artifact}
    {phase : Option Phase} (ran : phaseOf settings item verifier = .ok phase after) :
    Finds settings item verifier phase after := by
  cases unknown : verifier.phase? item.key with
  | some recalled =>
    rw [phaseOf_of_known unknown] at ran
    cases ran
    exact .known unknown
  | none =>
    rw [phaseOf_of_unknown unknown] at ran
    cases declared : item.declaration settings with
    | error cause => rw [declared] at ran; cases ran
    | ok declaration =>
      rw [declared] at ran
      simp only at ran
      split at ran
      next => cases ran
      next loader found => cases ran; exact .first unknown declared found
      next above loader found =>
        split at ran
        next => cases ran
        next other middle next => cases ran; exact .overriding unknown declared found (finds_of_phaseOf next)
termination_by unvisited artifact.methodKeys verifier.settled
decreasing_by exact unvisited_cons_lt item.key_mem (not_mem_settled unknown)

theorem Finds.step {settings : Settings} {holds : DeclaredMethod artifact → Prop}
    (upward : ∀ ⦃item above⦄, holds item → item.overridden settings = .ok (some above) → holds above)
    {item : DeclaredMethod artifact} {verifier after : Verifier artifact} {phase : Option Phase}
    (finds : Finds settings item verifier phase after) {done : List (DeclaredMethod artifact)}
    (tracks : Tracks settings verifier done) (loaded : item.owner ∈ verifier.loader.classes) (start : holds item)
    (distinct : ∀ loaded ∈ after.loader.classes, loaded.MethodsDistinct) :
    item.phase settings = .ok phase ∧ ∃ new, Step settings holds verifier after done new [] ∧ item ∈ done ++ new := by
  induction finds generalizing done with
  | @known item verifier phase recalled =>
    -- The phase was found out for a method of the same key, which is the same method.
    obtain ⟨other, present, same, found⟩ := tracks.recalled recalled
    have equal := DeclaredMethod.eq_of_key (distinct _ loaded) same.symm
    subst equal
    exact ⟨found, [], .refl tracks, by simpa using present⟩
  | @first item verifier declaration loader unknown declared found =>
    have nothing : item.overridden settings = .ok none :=
      (Loader.findOverridden_steady _ _ : LoaderM.Steady [] _ _).fresh_eq found
    have tracked : Tracks settings { verifier.settle item.key declaration with loader } (done ++ [item]) :=
      (tracks.settle unknown declared).of_phases rfl
    refine ⟨phase_of_declaration declared, [item], ?_, by simp⟩
    exact (Step.refl tracked).judge (ownWarnings_of_none declared nothing) start (settle_warnings ..).symm
      (warnAll_phases ..) (warnAll_warnings ..) (by simp [nothing])
  | @overriding item above verifier middle declaration loader phase unknown declared found next ih =>
    have steady : LoaderM.Steady [] (Loader.findOverridden settings.libraries item) _ :=
      Loader.findOverridden_steady settings.libraries item
    have overrides : item.overridden settings = .ok (some above) := steady.fresh_eq found
    -- The method above is looked for in classes that stay loaded, so what is assumed of those holds of its own.
    have kept : above.owner ∈ loader.classes := by simpa using steady.kept (List.nil_subset _) found
    obtain ⟨aboveFound, new, step, settled⟩ := ih ((tracks.settle unknown declared).of_phases rfl) kept
      (upward start overrides) (by simpa using distinct)
    refine ⟨phase_of_declaration declared, item :: new, ?_, by simp⟩
    exact step.judge (ownWarnings_of_some declared overrides aboveFound) start (settle_warnings ..).symm
      (warnAll_phases ..) (warnAll_warnings ..) (by simp_all)

theorem step_of_lift_ok {α : Type} {action : LoaderM artifact α} {verifier after : Verifier artifact} {value : α}
    (ran : (liftM action : VerifierM artifact α) verifier = .ok value after) :
    ∃ loader, action verifier.loader = .ok value loader ∧ after = { verifier with loader } := by
  cases step : action verifier.loader with
  | ok result loader =>
    simp only [liftM, monadLift, MonadLift.monadLift, step] at ran
    cases ran
    exact ⟨loader, rfl, rfl⟩
  | error cause loader =>
    simp only [liftM, monadLift, MonadLift.monadLift, step] at ran
    cases ran

theorem step_of_lift_error {α : Type} {action : LoaderM artifact α} {verifier after : Verifier artifact}
    {cause : CheckError} (ran : (liftM action : VerifierM artifact α) verifier = .error cause after) :
    ∃ loader, action verifier.loader = .error cause loader ∧ after = { verifier with loader } := by
  cases step : action verifier.loader with
  | ok result loader =>
    simp only [liftM, monadLift, MonadLift.monadLift, step] at ran
    cases ran
  | error other loader =>
    simp only [liftM, monadLift, MonadLift.monadLift, step] at ran
    cases ran
    exact ⟨loader, rfl, rfl⟩

theorem lift_of_ok {α : Type} {action : LoaderM artifact α} {verifier : Verifier artifact} {loader : Loader artifact}
    {value : α} (ran : action verifier.loader = .ok value loader) :
    (liftM action : VerifierM artifact α) verifier = .ok value { verifier with loader } := by
  simp only [liftM, monadLift, MonadLift.monadLift, ran]

theorem lift_of_error {α : Type} {action : LoaderM artifact α} {verifier : Verifier artifact} {loader : Loader artifact}
    {cause : CheckError} (ran : action verifier.loader = .error cause loader) :
    (liftM action : VerifierM artifact α) verifier = .error cause { verifier with loader } := by
  simp only [liftM, monadLift, MonadLift.monadLift, ran]

end Verifier

end PhaseCheck
