import PhaseCheck.Proofs.Verifier.Lasting

set_option autoImplicit false

namespace PhaseCheck

namespace Verifier

variable {artifact : Artifact}

/-- An action that, given some loaded classes, says what it should and settles the methods it should. -/
def Performs (settings : Settings) (holds : DeclaredMethod artifact → Prop) (needs : List (LoadedClass artifact))
    (action : VerifierM artifact PUnit) (tells : Except CheckError (List Warning))
    (covers : List (DeclaredMethod artifact) → Prop) : Prop :=
  ∀ ⦃before after done⦄, action before = .ok () after → Tracks settings before done →
    needs ⊆ before.loader.classes → (∀ loaded ∈ after.loader.classes, loaded.MethodsDistinct) →
    ∃ new said, tells = .ok said ∧ Step settings holds before after done new said ∧ covers (done ++ new)

section

variable {settings : Settings} {holds : DeclaredMethod artifact → Prop} {needs : List (LoadedClass artifact)}

namespace Performs

variable {β : Type} {action rest : VerifierM artifact PUnit} {tells more : Except CheckError (List Warning)}
  {covers others : List (DeclaredMethod artifact) → Prop}

theorem done (value : PUnit) (trivial : ∀ done, covers done) :
    Performs settings holds needs (pure value) (.ok []) covers := by
  intro before after done ran tracks _ _
  cases ran
  exact ⟨[], [], rfl, .refl tracks, trivial _⟩

theorem andThen (first : Performs settings holds needs action tells covers)
    (lasts : Along (Advances settings) action) (next : Performs settings holds needs rest more others)
    (lastsNext : Along (Advances settings) rest)
    (widen : ∀ ⦃done more⦄, done ⊆ more → covers done → covers more) :
    Performs settings holds needs (action >>= fun _ => rest) (do return (← tells) ++ (← more))
      fun done => covers done ∧ others done := by
  intro before after done ran tracks present distinct
  obtain ⟨_, middle, head, tail⟩ := steps_of_bind_ok ran
  have later := (lastsNext.of_ok tail).grown
  obtain ⟨new, said, told, step, covered⟩ := first head tracks present fun loaded kept => distinct loaded (later kept)
  obtain ⟨newer, saids, tolds, steps, covereds⟩ :=
    next tail step.tracks (List.Subset.trans present (lasts.of_ok head).grown) distinct
  refine ⟨new ++ newer, said ++ saids, ?_, step.trans steps, ?_⟩
  · rw [told, tolds]
    rfl
  · rw [← List.append_assoc]
    exact ⟨widen (List.subset_append_left ..) covered, covereds⟩

theorem forM {action : β → VerifierM artifact PUnit} {tells : β → Except CheckError (List Warning)}
    {covers : β → List (DeclaredMethod artifact) → Prop} (items : List β)
    (lasts : ∀ item, Along (Advances settings) (action item))
    (each : ∀ item ∈ items, Performs settings holds needs (action item) (tells item) (covers item))
    (widen : ∀ ⦃item done more⦄, done ⊆ more → covers item done → covers item more) :
    Performs settings holds needs (items.forM action) (tellEach tells items)
      fun done => ∀ item ∈ items, covers item done := by
  induction items with
  | nil => exact done _ (by simp)
  | cons item rest ih =>
    have head := each item (List.mem_cons_self ..)
    have tail := ih fun other within => each other (List.mem_cons_of_mem _ within)
    have both := head.andThen (lasts item) tail (.forM (.advances settings) rest lasts) fun _ _ => @widen item _ _
    rw [tellEach_cons]
    simpa using both

end Performs

def Covered (settings : Settings) (item : DeclaredMethod artifact) (done : List (DeclaredMethod artifact)) : Prop :=
  item ∈ done ∧ ∀ ⦃phase callees⦄, item.phase settings = .ok (some phase) → item.callees settings = .ok callees →
    callees ⊆ done

theorem Covered.widen {item : DeclaredMethod artifact} {done more : List (DeclaredMethod artifact)}
    (wider : done ⊆ more) (covered : Covered settings item done) : Covered settings item more :=
  ⟨wider covered.1, fun _ _ phased calls => List.Subset.trans (covered.2 phased calls) wider⟩

variable (upward : ∀ ⦃item above⦄, holds item → item.overridden settings = .ok (some above) → holds above)

include upward

theorem verifyCall_performs (caller : MethodKey) (phase : Phase) {callee : DeclaredMethod artifact}
    (start : holds callee) (present : callee.owner ∈ needs) :
    Performs settings holds needs (verifyCall settings caller phase callee) (callee.callWarnings settings caller phase)
      (callee ∈ ·) := by
  intro before after done ran tracks known distinct
  obtain ⟨found, middle, finding, _⟩ := steps_of_bind_ok ran
  rw [verifyCall_of_ok finding] at ran
  cases ran
  obtain ⟨phased, new, step, settled⟩ :=
    (finds_of_phaseOf finding).step upward tracks (known present) start (by simpa using distinct)
  refine ⟨new, _, ?_, step.say (warnAll_phases ..) (warnAll_warnings ..), settled⟩
  rw [DeclaredMethod.callWarnings, phased]
  rfl

theorem verify_performs {item : DeclaredMethod artifact} (start : holds item)
    (calls : ∀ ⦃phase callees callee⦄, item.phase settings = .ok (some phase) → item.callees settings = .ok callees →
      callee ∈ callees → holds callee) (present : item.owner ∈ needs) :
    Performs settings holds needs (verify settings item) (item.listedWarnings settings) (Covered settings item) := by
  intro before after done ran tracks known distinct
  obtain ⟨found, middle, finding, ran⟩ := steps_of_bind_ok ran
  have finds := finds_of_phaseOf finding
  cases found with
  | none =>
    cases ran
    obtain ⟨phased, new, step, settled⟩ := finds.step upward tracks (known present) start (by simpa using distinct)
    refine ⟨new, [.noPhase item.key], ?_, step.say rfl rfl, settled, fun _ _ other => by simp [phased] at other⟩
    simp only [DeclaredMethod.listedWarnings, phased, bind, Except.bind]
    rfl
  | some phase =>
    obtain ⟨callees, later, lifting, ran⟩ := steps_of_bind_ok ran
    obtain ⟨loader, resolving, rfl⟩ := step_of_lift_ok lifting
    have steady : LoaderM.Steady [] (Loader.callees settings item) _ := Loader.callees_steady settings item
    have called : item.callees settings = .ok callees := steady.fresh_eq resolving
    have checking := Along.forM (.advances settings) callees (verifyCall_lasts settings item.key phase)
    have grown := List.Subset.trans (steady.grows_of_ok resolving) (checking.of_ok ran).grown
    obtain ⟨phased, new, step, settled⟩ := finds.step upward tracks (known present) start
      fun loaded kept => distinct loaded (grown kept)
    obtain ⟨more, said, told, steps, covered⟩ :=
      Performs.forM callees (verifyCall_lasts settings item.key phase)
        (fun callee within => verifyCall_performs upward item.key phase (calls phased called within)
          (List.mem_map_of_mem within))
        (fun _ _ _ wider settled => wider settled) ran (step.tracks.of_phases rfl)
        (steady.kept (List.nil_subset _) resolving) distinct
    -- Resolving the calls loads classes but says nothing, so it goes with the step before it.
    have resolved : Step settings holds before { middle with loader } done new [] := step.say rfl (by simp)
    refine ⟨new ++ more, said, ?_, resolved.trans steps, ?_, ?_⟩
    · simp only [DeclaredMethod.listedWarnings, phased, called]
      exact told
    · rw [← List.append_assoc]
      exact List.mem_append_left _ settled
    · intro other others _ same callee within
      rw [called] at same
      cases same
      rw [← List.append_assoc]
      exact covered callee within

theorem verifyClass_performs {name : ClassName} {loaded : LoadedClass artifact}
    (loads : LoaderM.fresh (Loader.load name) = .ok loaded) (start : ∀ item ∈ loaded.methods, holds item)
    (calls : ∀ ⦃item phase callees callee⦄, item ∈ loaded.methods → item.phase settings = .ok (some phase) →
      item.callees settings = .ok callees → callee ∈ callees → holds callee) :
    Performs settings holds [] (verifyClass settings name)
      (tellEach (DeclaredMethod.listedWarnings settings) loaded.methods)
      fun done => ∀ item ∈ loaded.methods, Covered settings item done := by
  intro before after done ran tracks _ distinct
  obtain ⟨found, middle, lifting, ran⟩ := steps_of_bind_ok ran
  obtain ⟨loader, loading, rfl⟩ := step_of_lift_ok lifting
  -- The log is the only thing that a note changes.
  obtain ⟨_, later, noting, ran⟩ := steps_of_bind_ok ran
  cases noting
  have steady : LoaderM.Steady [] (Loader.load name : LoaderM artifact _) _ := Loader.load_steady name
  have same : loaded = found := by
    rw [steady.fresh_eq loading] at loads
    exact (Except.ok.inj loads).symm
  subst same
  have kept := steady.kept (List.nil_subset _) loading
  obtain ⟨new, said, told, step, covered⟩ :=
    Performs.forM loaded.methods (verify_lasts settings)
      (fun item within => verify_performs upward (start item within) (fun _ _ _ => calls within)
        (by rw [LoadedClass.mem_methods within]; exact List.mem_singleton_self _))
      (fun _ _ _ => Covered.widen) ran (tracks.of_phases rfl) kept distinct
  exact ⟨new, said, told, ⟨step.tracks, step.reached, step.closed, step.warned⟩, covered⟩

theorem verifyClasses_performs {names : List ClassName} {classes : List (LoadedClass artifact)}
    (loads : names.mapM (fun name => LoaderM.fresh (Loader.load name)) = .ok classes)
    (start : ∀ item ∈ classes.flatMap LoadedClass.methods, holds item)
    (calls : ∀ ⦃item phase callees callee⦄, item ∈ classes.flatMap LoadedClass.methods →
      item.phase settings = .ok (some phase) → item.callees settings = .ok callees → callee ∈ callees → holds callee) :
    Performs settings holds [] (names.forM (verifyClass settings))
      (tellEach (DeclaredMethod.listedWarnings settings) (classes.flatMap LoadedClass.methods))
      fun done => ∀ item ∈ classes.flatMap LoadedClass.methods, Covered settings item done := by
  induction names generalizing classes with
  | nil =>
    cases loads
    exact .done _ (by simp)
  | cons name rest ih =>
    rw [List.mapM_cons] at loads
    obtain ⟨loaded, here, loads⟩ := values_of_bind_ok loads
    obtain ⟨others, there, loads⟩ := values_of_bind_ok loads
    cases loads
    simp only [List.flatMap_cons, List.forall_mem_append] at start calls ⊢
    have head := verifyClass_performs upward here start.1 fun _ _ _ _ within => calls (List.mem_append_left _ within)
    have tail := ih there start.2 fun _ _ _ _ within => calls (List.mem_append_right _ within)
    rw [tellEach_append]
    exact head.andThen (verifyClass_lasts settings name) tail (.forM (.advances settings) rest (verifyClass_lasts settings))
      fun _ _ wider covered item within => (covered item within).widen wider

omit upward in
theorem classes_of_verifyClass {names : List ClassName} {before after : Verifier artifact}
    (ran : names.forM (verifyClass settings) before = .ok () after) :
    ∃ classes : List (LoadedClass artifact),
      names.mapM (fun name => LoaderM.fresh (Loader.load name)) = .ok classes := by
  induction names generalizing before with
  | nil => exact ⟨[], rfl⟩
  | cons name rest ih =>
    obtain ⟨_, middle, first, others⟩ := steps_of_bind_ok ran
    obtain ⟨loaded, _, lifting, _⟩ := steps_of_bind_ok first
    obtain ⟨loader, loading, _⟩ := step_of_lift_ok lifting
    obtain ⟨classes, mapped⟩ := ih others
    have steady : LoaderM.Steady [] (Loader.load name : LoaderM artifact _) _ := Loader.load_steady name
    refine ⟨loaded :: classes, ?_⟩
    rw [List.mapM_cons, steady.fresh_eq loading, mapped]
    rfl

end

theorem mem_done_of_reached {settings : Settings} {listed done : List (DeclaredMethod artifact)}
    (covered : ∀ item ∈ listed, Covered settings item done)
    (closed : ∀ item ∈ done, ∀ {above}, item.overridden settings = .ok (some above) → above ∈ done)
    {item : DeclaredMethod artifact} (reached : Reached settings listed item) : item ∈ done := by
  induction reached with
  | listed present => exact (covered _ present).1
  | called present phased calls called => exact (covered _ present).2 phased calls called
  | overridden _ overrides ih => exact closed _ ih overrides

section

variable {settings : Settings} {names : List ClassName} {classes : List (LoadedClass artifact)} {final : Verifier artifact}

theorem verifyAll_ok_iff (named : artifact.names = .ok names) {count : Nat} :
    verifyAll settings .empty = .ok count final ↔
      names.forM (verifyClass settings) .empty = .ok () final ∧ count = final.warnings.length := by
  unfold verifyAll
  rw [named]
  have counted (looping : names.forM (verifyClass settings) .empty = .ok () final) :
      final.warningCount = final.warnings.length :=
    ((Along.forM (.advances settings) names (verifyClass_lasts settings)).of_ok looping).counted
  constructor
  · intro ran
    obtain ⟨_, last, looping, ran⟩ := steps_of_bind_ok ran
    cases ran
    exact ⟨looping, counted looping⟩
  · rintro ⟨looping, rfl⟩
    exact (bind_of_ok looping).trans (by rw [← counted looping]; rfl)

theorem reports_of_loaded (loads : names.mapM (fun name => LoaderM.fresh (Loader.load name)) = .ok classes)
    (ran : names.forM (verifyClass settings) .empty = .ok () final)
    (distinct : ∀ loaded ∈ final.loader.classes, loaded.MethodsDistinct) :
    Reports settings (classes.flatMap LoadedClass.methods) final.warnings := by
  obtain ⟨reached, forListed, told, step, covered⟩ :=
    verifyClasses_performs (fun _ _ => Reached.overridden) loads (fun _ => Reached.listed)
      (fun _ _ _ _ => Reached.called) ran .empty (List.nil_subset _) distinct
  obtain ⟨own, judged, warned⟩ := step.warned
  exact ⟨reached, forListed, own, .of_map _ step.tracks.distinct,
    fun item => ⟨step.reached item, mem_done_of_reached covered step.closed⟩, told, judged, warned⟩

theorem reports_of_verifyAll {count : Nat} (ran : verifyAll settings .empty = .ok count final)
    (distinct : ∀ loaded ∈ final.loader.classes, loaded.MethodsDistinct) :
    count = final.warnings.length ∧ ∃ listed, artifact.listed = .ok listed ∧ Reports settings listed final.warnings := by
  cases named : artifact.names with
  | error cause =>
    unfold verifyAll at ran
    rw [named] at ran
    cases ran
  | ok names =>
    obtain ⟨looping, counted⟩ := (verifyAll_ok_iff named).mp ran
    obtain ⟨classes, loads⟩ := classes_of_verifyClass looping
    refine ⟨counted, classes.flatMap LoadedClass.methods, ?_, reports_of_loaded loads looping distinct⟩
    rw [Artifact.listed, named]
    simp only [bind, Except.bind, loads]
    rfl

end

/-- A check that comes to an end counts its warnings. They are, in some order, those about each listing of a
method and those about each reached method, once, and so are the texts that are written out. -/
theorem verifyAll_warnings {settings : Settings} {count : Nat} {final : Verifier artifact}
    (ran : verifyAll settings .empty = .ok count final)
    (distinct : ∀ loaded ∈ final.loader.classes, loaded.MethodsDistinct) :
    count = final.messages.length ∧
      ∃ (listed reached : List (DeclaredMethod artifact)) (forListed own : List Warning),
        artifact.listed = .ok listed ∧ tellEach (DeclaredMethod.listedWarnings settings) listed = .ok forListed ∧
        reached.Nodup ∧ (∀ item, item ∈ reached ↔ Reached settings listed item) ∧
        tellEach (DeclaredMethod.ownWarnings settings) reached = .ok own ∧
        final.warnings.Perm (forListed ++ own) ∧ final.messages.Perm ((forListed ++ own).map Warning.message) := by
  obtain ⟨counted, listed, lists, reached, forListed, own, once, all, told, judged, warned⟩ :=
    reports_of_verifyAll ran distinct
  refine ⟨?_, listed, reached, forListed, own, lists, told, once, all, judged, warned, warned.map _⟩
  rw [counted, messages, List.length_map]

-- A class file whose class has a name and a superclass of one letter. Its method `m()V` has one annotation.
def annotatedFile (name super note : UInt8) : List UInt8 :=
  [0xCA, 0xFE, 0xBA, 0xBE, 0, 0, 0, 52, 0, 9, 1, 0, 1, name, 7, 0, 1, 1, 0, 1, super, 7, 0, 3,
    1, 0, 3, 76, note, 59, 1, 0, 25] ++ "RuntimeVisibleAnnotations".toUTF8.data.toList ++
  [1, 0, 1, 109, 1, 0, 3, 40, 41, 86, 0, 0, 0, 2, 0, 4, 0, 0, 0, 0, 0, 1,
    0, 0, 0, 7, 0, 8, 0, 1, 0, 6, 0, 0, 0, 6, 0, 1, 0, 5, 0, 0, 0, 0]

def overridingName : ClassName := ⟨"A", by decide, by decide⟩

def overriddenName : ClassName := ⟨"B", by decide, by decide⟩

def methodName : MemberName := ⟨"m", by decide, by simp [MemberName.separators]⟩

def mismatchedArtifact : Artifact :=
  ClassStore.toArtifact ⟨[(overridingName, annotatedFile 65 66 70), (overriddenName, annotatedFile 66 67 83)]⟩

def letterSettings : Settings where
  setup := ⟨"S", by decide, by decide⟩
  flow := ⟨"F", by decide, by decide⟩
  ignored := ⟨"I", by decide, by decide⟩
  marker := .overrideMarker
  libraries := []
  checkCalls := true

theorem verifyAll_warnings_mismatch :
    ∃ (final : Verifier mismatchedArtifact) (listed reached : List (DeclaredMethod mismatchedArtifact))
        (forListed own : List Warning),
      verifyAll letterSettings .empty = .ok 1 final ∧ (∀ loaded ∈ final.loader.classes, loaded.MethodsDistinct) ∧
      final.warnings = [.overrideMismatch ⟨overridingName, methodName, "()V"⟩ .flow
        ⟨overriddenName, methodName, "()V"⟩ .setup] ∧
      final.messages =
        ["mismatched phase between method A.m()V (flow) and overridden method B.m()V (setup)"] ∧
      final.messages.length = 1 ∧ mismatchedArtifact.listed = .ok listed ∧ reached.Nodup ∧
      (∀ item, item ∈ reached ↔ Reached letterSettings listed item) ∧
      tellEach (DeclaredMethod.listedWarnings letterSettings) listed = .ok forListed ∧
      tellEach (DeclaredMethod.ownWarnings letterSettings) reached = .ok own ∧
      final.warnings.Perm (forListed ++ own) := by
  have checked : succeeds (fun count final => decide (count = 1 ∧ (∀ loaded ∈ final.loader.classes,
        (loaded.file.methods.map fun method => (method.name, method.descriptor)).Nodup) ∧
        final.warnings = [.overrideMismatch ⟨overridingName, methodName, "()V"⟩ .flow
          ⟨overriddenName, methodName, "()V"⟩ .setup] ∧
        final.messages = ["mismatched phase between method A.m()V (flow) and overridden method B.m()V (setup)"]))
      (verifyAll letterSettings (.empty : Verifier mismatchedArtifact)) = true := by decide +kernel
  obtain ⟨count, final, ran, checked⟩ := exists_of_succeeds checked
  obtain ⟨rfl, distinct, warnings, messages⟩ := of_decide_eq_true checked
  obtain ⟨counted, listed, reached, forListed, own, lists, told, once, exact, judged, warned, _⟩ :=
    verifyAll_warnings ran distinct
  exact ⟨final, listed, reached, forListed, own, ran, distinct, warnings, messages, counted.symm, lists, once, exact, told,
    judged, warned⟩

end Verifier

end PhaseCheck
