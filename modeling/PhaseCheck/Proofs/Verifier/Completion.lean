import PhaseCheck.Proofs.Verifier.Refinement

set_option autoImplicit false

namespace PhaseCheck

theorem told_of_tellEach {β : Type} {tells : β → Except CheckError (List Warning)} {items : List β}
    {said : List Warning} (told : tellEach tells items = .ok said) {item : β} (present : item ∈ items) :
    ∃ one, tells item = .ok one := by
  obtain ⟨all, mapped, _⟩ := values_of_bind_ok told
  obtain ⟨one, _, found⟩ := value_of_mapM_ok mapped present
  exact ⟨one, found⟩

theorem mem_filterMap_tellEach {β γ : Type} {tells : β → Except CheckError (List Warning)} {items : List β}
    {said : List Warning} (told : tellEach tells items = .ok said) {view : Warning → Option γ} {seen : γ} :
    seen ∈ said.filterMap view ↔ ∃ item ∈ items, ∃ one, tells item = .ok one ∧ seen ∈ one.filterMap view := by
  induction items generalizing said with
  | nil =>
    cases told
    simp
  | cons item rest ih =>
    rw [tellEach_cons] at told
    obtain ⟨one, here, told⟩ := values_of_bind_ok told
    obtain ⟨more, there, told⟩ := values_of_bind_ok told
    cases told
    rw [List.filterMap_append, List.mem_append, ih there]
    simp [here]

structure Passes {artifact : Artifact} (settings : Settings) (listed : List (DeclaredMethod artifact)) : Prop where
  tells : ∀ item ∈ listed, ∃ said, item.listedWarnings settings = .ok said
  judges : ∀ item, Reached settings listed item → ∃ own, item.ownWarnings settings = .ok own

theorem Reports.passes {artifact : Artifact} {settings : Settings} {listed : List (DeclaredMethod artifact)}
    {warnings : List Warning} (reports : Reports settings listed warnings) : Passes settings listed := by
  obtain ⟨reached, _, _, _, all, told, judged, _⟩ := reports
  constructor
  · intro item within
    exact told_of_tellEach told within
  · intro item within
    exact told_of_tellEach judged ((all item).mpr within)

namespace Verifier

variable {artifact : Artifact} {settings : Settings} {holds : DeclaredMethod artifact → Prop}
  {needs : List (LoadedClass artifact)}

def Completes (settings : Settings) (needs : List (LoadedClass artifact)) (action : VerifierM artifact PUnit) : Prop :=
  ∀ ⦃before done⦄, Tracks settings before done → needs ⊆ before.loader.classes →
    ∃ after more, action before = .ok () after ∧ Tracks settings after more

namespace Completes

variable {β : Type} {action : VerifierM artifact PUnit} {tells : Except CheckError (List Warning)}
  {covers : List (DeclaredMethod artifact) → Prop}

theorem of_performs (performs : Performs settings holds needs action tells covers)
    (distinct : ∀ loaded : LoadedClass artifact, loaded.MethodsDistinct)
    (ends : ∀ ⦃before done⦄, Tracks settings before done → needs ⊆ before.loader.classes →
      ∃ after, action before = .ok () after) : Completes settings needs action := by
  intro before done tracks known
  obtain ⟨after, ran⟩ := ends tracks known
  obtain ⟨new, _, _, step, _⟩ := performs ran tracks known fun loaded _ => distinct loaded
  exact ⟨after, done ++ new, ran, step.tracks⟩

theorem forM {action : β → VerifierM artifact PUnit} (items : List β)
    (lasts : ∀ item, Along (Advances settings) (action item))
    (each : ∀ item ∈ items, Completes settings needs (action item)) : Completes settings needs (items.forM action) := by
  induction items with
  | nil => exact fun before done tracks _ => ⟨before, done, rfl, tracks⟩
  | cons item rest ih =>
    intro before done tracks known
    obtain ⟨middle, more, ran, tracksMiddle⟩ := each item (List.mem_cons_self ..) tracks known
    have knownMiddle := List.Subset.trans known ((lasts item).of_ok ran).grown
    obtain ⟨after, most, ranRest, tracksAfter⟩ :=
      ih (fun other within => each other (List.mem_cons_of_mem _ within)) tracksMiddle knownMiddle
    exact ⟨after, most, (bind_of_ok ran).trans ranRest, tracksAfter⟩

end Completes

section

variable (upward : ∀ ⦃item above⦄, holds item → item.overridden settings = .ok (some above) → holds above)
  (judges : ∀ item, holds item → ∃ own, item.ownWarnings settings = .ok own)

include upward judges

theorem getPhase_completes {item : DeclaredMethod artifact} (start : holds item) (verifier : Verifier artifact) :
    ∃ phase after, getPhase settings item verifier = .ok phase after := by
  unfold getPhase
  cases unknown : verifier.phase? item.key with
  | some phase => exact ⟨phase, verifier, phaseOf_of_known unknown⟩
  | none =>
    obtain ⟨own, tells⟩ := judges item start
    obtain ⟨declaration, declared, tells⟩ := values_of_bind_ok tells
    obtain ⟨overridden, overrides, _⟩ := values_of_bind_ok tells
    -- The search for the overridden method goes well from an empty loader, so it does from this one.
    obtain ⟨loader, found⟩ := (Loader.findOverridden_steady settings.libraries item : LoaderM.Steady [] _ _).ok_of_fresh
      overrides (verifier.settle item.key declaration).loader
    rw [phaseOf_of_unknown unknown, declared]
    simp only [found]
    cases overridden with
    | none => exact ⟨_, _, rfl⟩
    | some above =>
      obtain ⟨phase, after, ran⟩ := getPhase_completes (upward start overrides)
        ({ verifier.settle item.key declaration with loader }.note (.overrides item.key above.key))
      unfold getPhase at ran
      simp only [ran]
      exact ⟨_, _, rfl⟩
termination_by unvisited artifact.methodKeys verifier.settled
decreasing_by exact unvisited_cons_lt item.key_mem (not_mem_settled unknown)

theorem verifyCall_completes (caller : MethodKey) (phase : Phase) {callee : DeclaredMethod artifact}
    (start : holds callee) (verifier : Verifier artifact) :
    ∃ after, verifyCall settings caller phase callee verifier = .ok () after := by
  obtain ⟨found, middle, finding⟩ := getPhase_completes upward judges start verifier
  exact ⟨_, verifyCall_of_ok finding caller phase⟩

variable (distinct : ∀ loaded : LoadedClass artifact, loaded.MethodsDistinct)

include distinct

theorem verify_completes {item : DeclaredMethod artifact} (start : holds item)
    (calls : ∀ ⦃phase callees callee⦄, item.phase settings = .ok (some phase) → item.callees settings = .ok callees →
      callee ∈ callees → holds callee) (present : item.owner ∈ needs)
    (tells : ∃ said, item.listedWarnings settings = .ok said) : Completes settings needs (verify settings item) := by
  refine .of_performs (verify_performs upward start calls present) distinct fun before done tracks known => ?_
  obtain ⟨found, middle, finding⟩ := getPhase_completes upward judges start before
  obtain ⟨phased, _⟩ :=
    (finds_of_phaseOf finding).step upward tracks (known present) start fun loaded _ => distinct loaded
  rw [verify, bind_of_ok finding]
  cases found with
  | none => exact ⟨_, rfl⟩
  | some phase =>
    obtain ⟨said, told⟩ := tells
    obtain ⟨other, again, told⟩ := values_of_bind_ok told
    rw [phased] at again
    cases again
    obtain ⟨callees, called, _⟩ := values_of_bind_ok told
    obtain ⟨loader, resolving⟩ :=
      (Loader.callees_steady settings item : LoaderM.Steady [] _ _).ok_of_fresh called middle.loader
    simp only
    rw [bind_of_ok (lift_of_ok resolving)]
    exact forM_ok (fun callee within =>
      verifyCall_completes upward judges item.key phase (calls phased called within)) _

theorem verifyClass_completes {name : ClassName} {loaded : LoadedClass artifact}
    (loads : LoaderM.fresh (Loader.load name) = .ok loaded) (start : ∀ item ∈ loaded.methods, holds item)
    (calls : ∀ ⦃item phase callees callee⦄, item ∈ loaded.methods → item.phase settings = .ok (some phase) →
      item.callees settings = .ok callees → callee ∈ callees → holds callee)
    (tells : ∀ item ∈ loaded.methods, ∃ said, item.listedWarnings settings = .ok said) :
    Completes settings ([] : List (LoadedClass artifact)) (verifyClass settings name) := by
  refine .of_performs (verifyClass_performs upward loads start calls) distinct fun before done tracks _ => ?_
  have steady : LoaderM.Steady [] (Loader.load name : LoaderM artifact _) _ := Loader.load_steady name
  obtain ⟨loader, loading⟩ := steady.ok_of_fresh loads before.loader
  have kept : [loaded] ⊆ loader.classes := steady.kept (List.nil_subset _) loading
  have each : Completes settings [loaded] (loaded.methods.forM (verify settings)) :=
    .forM loaded.methods (verify_lasts settings) fun item within =>
      verify_completes upward judges distinct (start item within) (fun _ _ _ => calls within)
        (by rw [LoadedClass.mem_methods within]; exact List.mem_singleton_self _) (tells item within)
  rw [verifyClass, bind_of_ok (lift_of_ok loading)]
  -- The note that comes next goes to the log.
  have tracksLater : Tracks settings
      ({ before with loader }.note (.verifying loaded.methods.length name)) done := tracks.of_phases rfl
  obtain ⟨after, _, ran, _⟩ := each tracksLater kept
  exact ⟨after, ran⟩

end

section

variable {names : List ClassName} {classes : List (LoadedClass artifact)} {final : Verifier artifact}

variable (loads : names.mapM (fun name => LoaderM.fresh (Loader.load name)) = .ok classes)
  (distinct : ∀ loaded : LoadedClass artifact, loaded.MethodsDistinct)

include loads distinct

theorem verifyClasses_complete (passes : Passes settings (classes.flatMap LoadedClass.methods)) :
    ∃ final : Verifier artifact, names.forM (verifyClass settings) .empty = .ok () final := by
  have each : Completes settings ([] : List (LoadedClass artifact)) (names.forM (verifyClass settings)) := by
    refine .forM names (verifyClass_lasts settings) fun name within => ?_
    obtain ⟨loaded, among, here⟩ := value_of_mapM_ok loads within
    have listed {item : DeclaredMethod artifact} (declared : item ∈ loaded.methods) :
        item ∈ classes.flatMap LoadedClass.methods := List.mem_flatMap.mpr ⟨loaded, among, declared⟩
    exact verifyClass_completes (fun _ _ => Reached.overridden) passes.judges distinct here
      (fun _ declared => .listed (listed declared)) (fun _ _ _ _ declared => .called (listed declared))
      fun item declared => passes.tells item (listed declared)
  obtain ⟨final, _, ran, _⟩ := each .empty (List.nil_subset _)
  exact ⟨final, ran⟩

theorem reports_of_verifyClasses (ran : names.forM (verifyClass settings) .empty = .ok () final) :
    Reports settings (classes.flatMap LoadedClass.methods) final.warnings :=
  reports_of_loaded loads ran fun loaded _ => distinct loaded

end

end Verifier

end PhaseCheck
