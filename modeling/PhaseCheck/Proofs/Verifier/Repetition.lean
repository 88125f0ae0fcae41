import PhaseCheck.Proofs.Verifier.Histories
import PhaseCheck.Proofs.Verifier.Refinement

set_option autoImplicit false

namespace PhaseCheck

/-- Why a method cannot be compared with what it overrides: that is not found, or its annotations cannot be read, or it
cannot be compared with what it overrides itself. -/
inductive DeclaredMethod.FailsAbove {artifact : Artifact} (settings : Settings) :
    DeclaredMethod artifact → CheckError → Prop where
  | lost {item : DeclaredMethod artifact} {cause : CheckError} (failed : item.overridden settings = .error cause) :
      FailsAbove settings item cause
  | unread {item above : DeclaredMethod artifact} {cause : CheckError}
      (overrides : item.overridden settings = .ok (some above)) (failed : above.declaration settings = .error cause) :
      FailsAbove settings item cause
  | higher {item above : DeclaredMethod artifact} {cause : CheckError}
      (overrides : item.overridden settings = .ok (some above)) (fails : FailsAbove settings above cause) :
      FailsAbove settings item cause

namespace Verifier

variable {artifact : Artifact} {settings : Settings}

theorem phaseOf_fails {item : DeclaredMethod artifact} {before after : Verifier artifact} {cause : CheckError}
    (ran : phaseOf settings item before = .error cause after) :
    before.phase? item.key = none ∧
      (item.declaration settings = .error cause ∧ after = before ∨
        ∃ declaration, item.declaration settings = .ok declaration ∧ after.phase? item.key = some declaration.phase ∧
          item.FailsAbove settings cause) := by
  cases unknown : before.phase? item.key with
  | some phase =>
    rw [phaseOf_of_known unknown] at ran
    cases ran
  | none =>
    refine ⟨rfl, ?_⟩
    rw [phaseOf_of_unknown unknown] at ran
    cases declared : item.declaration settings with
    | error other =>
      rw [declared] at ran
      cases ran
      exact .inl ⟨rfl, rfl⟩
    | ok declaration =>
      refine .inr ⟨declaration, rfl, ?_⟩
      rw [declared] at ran
      have settled : (before.settle item.key declaration).phase? item.key = some declaration.phase := by
        rw [phase?_settle, if_pos rfl]
      have steady : LoaderM.Steady [] (Loader.findOverridden settings.libraries item) _ :=
        Loader.findOverridden_steady settings.libraries item
      simp only at ran
      split at ran
      next loader found =>
        cases ran
        exact ⟨settled, .lost (steady.fresh_error found)⟩
      next => cases ran
      next above loader found =>
        have overrides : item.overridden settings = .ok (some above) := steady.fresh_eq found
        split at ran
        next last finding =>
          cases ran
          have kept := (phaseOf_advances settings above
            ({ before.settle item.key declaration with loader }.note (.overrides item.key above.key))).1.kept settled
          rw [finding] at kept
          refine ⟨kept, ?_⟩
          obtain ⟨_, ⟨undeclared, _⟩ | ⟨_, _, _, fails⟩⟩ := phaseOf_fails finding
          · exact .unread overrides undeclared
          · exact .higher overrides fails
        next => cases ran
termination_by unvisited artifact.methodKeys before.settled
decreasing_by exact unvisited_cons_lt item.key_mem (not_mem_settled unknown)

-- A failure that may not come again: meanwhile the phase of a method has been remembered that cannot be compared with
-- what it overrides.
def Excused (settings : Settings) (before after : Verifier artifact) (cause : CheckError) : Prop :=
  ∃ (item : DeclaredMethod artifact) (declaration : Declaration), before.phase? item.key = none ∧
    item.declaration settings = .ok declaration ∧ after.phase? item.key = some declaration.phase ∧
    item.FailsAbove settings cause

theorem Excused.earlier {before middle after : Verifier artifact} {cause : CheckError}
    (excused : Excused settings middle after cause) (knows : middle.Knows before) :
    Excused settings before after cause := by
  obtain ⟨item, declaration, unknown, declared, remembered, fails⟩ := excused
  refine ⟨item, declaration, ?_, declared, remembered, fails⟩
  cases known : before.phase? item.key with
  | none => rfl
  | some phase =>
    rw [knows known] at unknown
    cases unknown

/-- An action that, where it has gone well, goes well again without remembering anything new, and where it has failed,
fails again unless there is an excuse. -/
structure Repeats (settings : Settings) {α : Type} (action : VerifierM artifact α) : Prop where
  lasts : Along (Advances settings) action
  resumes : ∀ ⦃before after value⦄, action before = .ok value after → ∀ ⦃later⦄, later.Knows after →
    ∃ final, action later = .ok value final ∧ final.phases = later.phases
  retries : ∀ ⦃before after cause⦄, action before = .error cause after → ∀ ⦃later⦄, later.phases = after.phases →
    (∃ final, action later = .error cause final) ∨ Excused settings before after cause

namespace Repeats

variable {α β : Type}

theorem done (value : α) : Repeats settings (pure value : VerifierM artifact α) where
  lasts := .done (.advances settings) value
  resumes before after result ran later _ := by
    cases ran
    exact ⟨later, rfl, rfl⟩
  retries before after cause ran := by cases ran

theorem changing {change : Verifier artifact → Verifier artifact}
    (lasts : Along (Advances settings) (modify change : VerifierM artifact PUnit))
    (same : ∀ verifier, (change verifier).phases = verifier.phases) :
    Repeats settings (modify change : VerifierM artifact PUnit) where
  lasts := lasts
  resumes before after result ran later _ := by
    cases ran
    exact ⟨change later, rfl, same later⟩
  retries before after cause ran := by cases ran

theorem lifting {action : LoaderM artifact α} {uses : α → List (LoadedClass artifact)}
    (steady : LoaderM.Steady [] action uses) : Repeats settings (liftM action : VerifierM artifact α) where
  lasts := .lifting (.advances settings) steady
  resumes before after value ran later _ := by
    obtain ⟨loader, step, rfl⟩ := step_of_lift_ok ran
    obtain ⟨final, again⟩ := ok_of_answer ((steady.same later.loader before.loader).trans (by rw [step]; rfl))
    exact ⟨{ later with loader := final }, lift_of_ok again, rfl⟩
  retries before after cause ran later _ := by
    obtain ⟨loader, step, rfl⟩ := step_of_lift_error ran
    obtain ⟨final, again⟩ := error_of_answer ((steady.same later.loader before.loader).trans (by rw [step]; rfl))
    exact .inl ⟨{ later with loader := final }, lift_of_error again⟩

theorem andThen {action : VerifierM artifact α} {rest : α → VerifierM artifact β} (first : Repeats settings action)
    (next : ∀ value, Repeats settings (rest value)) : Repeats settings (action >>= rest) where
  lasts := .andThen (.advances settings) first.lasts fun value => (next value).lasts
  resumes before after result ran later knows := by
    obtain ⟨value, middle, here, there⟩ := steps_of_bind_ok ran
    have grown := (next value).lasts.of_ok there
    obtain ⟨halfway, again, same⟩ := first.resumes here fun _ _ known => knows (grown.kept known)
    obtain ⟨final, last, sameLast⟩ := (next value).resumes there fun _ _ known =>
      Knows.of_phases same (knows known)
    exact ⟨final, (bind_of_ok again).trans last, sameLast.trans same⟩
  retries before after cause ran later same := by
    rcases steps_of_bind_error ran with here | ⟨value, middle, here, there⟩
    · rcases first.retries here same with ⟨final, again⟩ | excused
      · exact .inl ⟨final, bind_of_error again⟩
      · exact .inr excused
    · have grown := (next value).lasts middle
      rw [there] at grown
      obtain ⟨halfway, again, sameHalfway⟩ := first.resumes here fun _ _ known =>
        Knows.of_phases same (grown.kept known)
      rcases (next value).retries there (sameHalfway.trans same) with ⟨final, last⟩ | excused
      · exact .inl ⟨final, (bind_of_ok again).trans last⟩
      · exact .inr (excused.earlier (first.lasts.of_ok here).kept)

theorem forM {action : β → VerifierM artifact PUnit} (items : List β) (each : ∀ item, Repeats settings (action item)) :
    Repeats settings (items.forM action) := by
  induction items with
  | nil => exact done _
  | cons item rest ih => exact (each item).andThen fun _ => ih

end Repeats

theorem getPhase_repeats (item : DeclaredMethod artifact) : Repeats settings (getPhase settings item) where
  lasts := getPhase_lasts settings item
  resumes before after phase ran later knows := by
    have remembered := (phaseOf_advances settings item before).2 phase
    rw [show phaseOf settings item before = .ok phase after from ran] at remembered
    exact ⟨later, phaseOf_of_known (knows (remembered rfl)), rfl⟩
  retries before after cause ran later same := by
    obtain ⟨unknown, ⟨undeclared, rfl⟩ | ⟨declaration, declared, remembered, fails⟩⟩ := phaseOf_fails ran
    · left
      have still : later.phase? item.key = none := by simpa [phase?, same] using unknown
      refine ⟨later, ?_⟩
      rw [getPhase, phaseOf_of_unknown still, undeclared]
    · exact .inr ⟨item, declaration, unknown, declared, remembered, fails⟩

theorem verifyCall_repeats (caller : MethodKey) (phase : Phase) (callee : DeclaredMethod artifact) :
    Repeats settings (verifyCall settings caller phase callee) := by
  refine (getPhase_repeats callee).andThen fun found => ?_
  cases found with
  | none => exact .done _
  | some other =>
    by_cases same : other = phase
    · simpa [same] using Repeats.done ()
    · simpa [same] using Repeats.changing (warn_lasts rfl) fun verifier => warn_phases ..

theorem verify_repeats (item : DeclaredMethod artifact) : Repeats settings (verify settings item) := by
  refine (getPhase_repeats item).andThen fun found => ?_
  cases found with
  | none => exact .changing (warn_lasts rfl) fun verifier => warn_phases ..
  | some phase =>
    refine (Repeats.lifting (Loader.callees_steady settings item)).andThen fun callees => ?_
    exact .forM callees fun callee => verifyCall_repeats item.key phase callee

theorem verifyClass_repeats (name : ClassName) :
    Repeats settings (verifyClass settings name : VerifierM artifact PUnit) := by
  refine (Repeats.lifting (Loader.load_steady name)).andThen fun loaded => ?_
  refine (Repeats.changing (.noting (.advances settings) _) fun verifier => note_phases ..).andThen fun _ => ?_
  exact .forM loaded.methods fun item => verify_repeats item

theorem verifyAll_retries {before after : Verifier artifact} {cause : CheckError}
    (ran : verifyAll settings before = .error cause after) :
    (∃ final, verifyAll settings after = .error cause final) ∨ Excused settings before after cause := by
  unfold verifyAll at ran ⊢
  cases named : artifact.names with
  | error reason =>
    rw [named] at ran
    cases ran
    exact .inl ⟨_, rfl⟩
  | ok names =>
    rw [named] at ran
    have repeats : Repeats settings (names.forM (verifyClass settings) : VerifierM artifact PUnit) :=
      .forM names fun name => verifyClass_repeats name
    rcases steps_of_bind_error ran with here | ⟨_, _, _, counting⟩
    · rcases repeats.retries here rfl with ⟨final, again⟩ | excused
      · exact .inl ⟨final, bind_of_error again⟩
      · exact .inr excused
    · cases counting

/-- What happens if a verifier that has failed is asked again. The phase of a method whose own annotations cannot be read
is not remembered, and asking for it fails in the same way. If they can be read, then the failure is about a method further
up, and the phase that the method declares is given the next time. A check of everything fails in the same way again,
unless it failed for a method of the second kind. -/
theorem repeat_after_failure (settings : Settings) (verifier : Verifier artifact) :
    (∀ item cause failed, getPhase settings item verifier = .error cause failed →
      (∀ reason, item.annotations = .error reason →
        failed = verifier ∧ cause = .badClass item.owner.name reason ∧
        getPhase settings item failed = .error cause failed) ∧
      ∀ notes, item.annotations = .ok notes → item.FailsAbove settings cause ∧
        getPhase settings item failed = .ok (settings.firstTag? notes) failed) ∧
    ∀ cause failed, verifyAll settings verifier = .error cause failed →
      (∃ final, verifyAll settings failed = .error cause final) ∨
      ∃ (item : DeclaredMethod artifact) (notes : List AnnotationTree), verifier.phase? item.key = none ∧
        item.annotations = .ok notes ∧ failed.phase? item.key = some (settings.firstTag? notes) ∧
        item.FailsAbove settings cause := by
  constructor
  · intro item cause failed ran
    obtain ⟨unknown, ends⟩ := phaseOf_fails ran
    constructor
    · intro reason unread
      rw [DeclaredMethod.declaration_of_error unread] at ends
      obtain ⟨same, rfl⟩ | ⟨_, declared, _⟩ := ends
      · cases same
        exact ⟨rfl, rfl, ran⟩
      · cases declared
    · intro notes read
      rw [DeclaredMethod.declaration_of_ok read] at ends
      rw [← settings.phase_declaration]
      obtain ⟨undeclared, _⟩ | ⟨_, same, remembered, fails⟩ := ends
      · cases undeclared
      · cases same
        exact ⟨fails, phaseOf_of_known remembered⟩
  · intro cause failed ran
    rcases verifyAll_retries ran with again | ⟨item, declaration, unknown, declared, remembered, fails⟩
    · exact .inl again
    · right
      cases read : item.annotations with
      | error reason =>
        rw [DeclaredMethod.declaration_of_error read] at declared
        cases declared
      | ok notes =>
        rw [DeclaredMethod.declaration_of_ok read] at declared
        cases declared
        rw [settings.phase_declaration] at remembered
        exact ⟨item, notes, unknown, read, remembered, fails⟩

def selfName : ClassName := ⟨"X", by decide, by decide⟩

-- A class with an annotation of no type, and a class that is its own superclass.
def failingArtifact : Artifact :=
  ClassStore.toArtifact ⟨[(⟨"W", by decide, by decide⟩, annotatedFile 87 67 59), (selfName, annotatedFile 88 88 70)]⟩

theorem error_of_not_isOk {ε σ α : Type} {outcome : EStateM.Result ε σ α} (failed : (answerOf outcome).isOk = false) :
    ∃ cause final, outcome = .error cause final := by
  cases outcome with
  | ok value final => cases failed
  | error cause final => exact ⟨cause, final, rfl⟩

theorem repeat_after_failure_both :
    ∃ (unread read : DeclaredMethod failingArtifact) (reason : FormatError) (notes : List AnnotationTree)
        (cause other : CheckError) (failed stuck final : Verifier failingArtifact),
      unread.annotations = .error reason ∧
      getPhase letterSettings unread .empty = .error (.badClass unread.owner.name reason) failed ∧ failed = .empty ∧
      getPhase letterSettings unread failed = .error (.badClass unread.owner.name reason) failed ∧
      read.annotations = .ok notes ∧ getPhase letterSettings read .empty = .error cause stuck ∧
      read.FailsAbove letterSettings cause ∧
      getPhase letterSettings read stuck = .ok (letterSettings.firstTag? notes) stuck ∧
      verifyAll letterSettings .empty = .error other final ∧
      ((∃ last, verifyAll letterSettings final = .error other last) ∨
        ∃ (item : DeclaredMethod failingArtifact) (notes : List AnnotationTree), item.annotations = .ok notes ∧
          item.FailsAbove letterSettings other) := by
  have firstChecked : ((failingArtifact.listed.toOption.getD []).any fun item => !item.annotations.isOk &&
      !(answerOf (getPhase letterSettings item .empty)).isOk) = true := by decide +kernel
  have secondChecked : ((failingArtifact.listed.toOption.getD []).any fun item => item.annotations.isOk &&
      !(answerOf (getPhase letterSettings item .empty)).isOk) = true := by decide +kernel
  have allChecked : (answerOf (verifyAll letterSettings (.empty : Verifier failingArtifact))).isOk = false := by
    decide +kernel
  obtain ⟨unread, _, fails⟩ := List.any_eq_true.mp firstChecked
  obtain ⟨read, _, failsToo⟩ := List.any_eq_true.mp secondChecked
  simp only [Bool.and_eq_true, Bool.not_eq_true'] at fails failsToo
  obtain ⟨cause, failed, ran⟩ := error_of_not_isOk fails.2
  obtain ⟨other, stuck, ranToo⟩ := error_of_not_isOk failsToo.2
  obtain ⟨last, final, ranAll⟩ := error_of_not_isOk allChecked
  have first := (repeat_after_failure letterSettings .empty).1 unread cause failed ran
  have second := (repeat_after_failure letterSettings .empty).1 read other stuck ranToo
  have all := (repeat_after_failure letterSettings .empty).2 last final ranAll
  cases unreadable : unread.annotations with
  | ok => simp [unreadable, Except.isOk, Except.toBool] at fails
  | error reason =>
    cases readable : read.annotations with
    | error => simp [readable, Except.isOk, Except.toBool] at failsToo
    | ok notes =>
      obtain ⟨same, rfl, again⟩ := first.1 reason unreadable
      obtain ⟨above, recalled⟩ := second.2 notes readable
      refine ⟨unread, read, reason, notes, other, last, failed, stuck, final, unreadable, ran, same, again, readable,
        ranToo, above, recalled, ranAll, all.imp_right ?_⟩
      rintro ⟨item, itemNotes, _, noted, _, lost⟩
      exact ⟨item, itemNotes, noted, lost⟩

-- A class that is its own superclass.
def selfExtending : Artifact :=
  ClassStore.toArtifact ⟨[(selfName, annotatedFile 88 88 70)]⟩

def selfLoaded : Verifier selfExtending :=
  after letterSettings [.consult (.load selfName)]

def failsOnce {σ α : Type} (action : EStateM CheckError σ α) (cause : CheckError) (expected : α → Bool) (state : σ) :
    Bool :=
  match action state with
  | .ok _ _ => false
  | .error found failed => decide (found = cause) && succeeds (fun value _ => expected value) (action failed)

theorem failsOnce_spec {σ α : Type} {action : EStateM CheckError σ α} {cause : CheckError} {expected : α → Bool}
    {state : σ} (checked : failsOnce action cause expected state = true) :
    ∃ failed value final, action state = .error cause failed ∧ action failed = .ok value final ∧
      expected value = true := by
  unfold failsOnce at checked
  split at checked
  next => cases checked
  next found failed first =>
    obtain ⟨same, again⟩ := (Bool.and_eq_true ..).mp checked
    obtain rfl := of_decide_eq_true same
    obtain ⟨value, final, second, given⟩ := exists_of_succeeds again
    exact ⟨failed, value, final, first, second, given⟩

-- A failure that is forgotten: the phase of a method below a cycle is given when it is asked for again, and so
-- everything is found in order when it is checked again.
theorem failure_forgotten :
    (∃ (item : DeclaredMethod selfExtending) (failed final : Verifier selfExtending),
      item.owner ∈ selfLoaded.loader.classes ∧
      getPhase letterSettings item selfLoaded = .error (.cyclicHierarchy selfName) failed ∧
      getPhase letterSettings item failed = .ok (some .flow) final) ∧
    ∃ failed final : Verifier selfExtending,
      verifyAll letterSettings selfLoaded = .error (.cyclicHierarchy selfName) failed ∧
      verifyAll letterSettings failed = .ok 0 final := by
  constructor
  · have checked : (selfLoaded.loader.classes.flatMap LoadedClass.methods).any (fun item =>
        failsOnce (getPhase letterSettings item) (.cyclicHierarchy selfName) (· = some .flow) selfLoaded) = true := by
      decide +kernel
    obtain ⟨item, listed, once⟩ := List.any_eq_true.mp checked
    obtain ⟨loaded, kept, declared⟩ := List.mem_flatMap.mp listed
    obtain ⟨failed, _, final, first, second, same⟩ := failsOnce_spec once
    cases of_decide_eq_true same
    rw [← LoadedClass.mem_methods declared] at kept
    exact ⟨item, failed, final, kept, first, second⟩
  · have checked : failsOnce (verifyAll letterSettings) (.cyclicHierarchy selfName) (· = 0) selfLoaded = true := by
      decide +kernel
    obtain ⟨failed, _, final, first, second, same⟩ := failsOnce_spec checked
    cases of_decide_eq_true same
    exact ⟨failed, final, first, second⟩

end Verifier

end PhaseCheck
