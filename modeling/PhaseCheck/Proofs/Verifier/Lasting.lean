import PhaseCheck.Proofs.Verifier.Finding

set_option autoImplicit false

namespace PhaseCheck

inductive Topic where
  | declaration
  | overriding
deriving DecidableEq

-- What a warning judges, and of which method. Other warnings are about a listed method or a call.
def Warning.topic? : Warning → Option (Topic × MethodKey)
  | .severalPhases method _ => some (.declaration, method)
  | .overrideMismatch method .. => some (.overriding, method)
  | .nothingOverridden method => some (.overriding, method)
  | .noPhase _ => none
  | .callMismatch .. => none

namespace Verifier

variable {artifact : Artifact}

@[simp] theorem warn_warningCount (verifier : Verifier artifact) (warning : Warning) :
    (verifier.warn warning).warningCount = verifier.warningCount + 1 := rfl

@[simp] theorem warnAll_warningCount (verifier : Verifier artifact) (warnings : List Warning) :
    (verifier.warnAll warnings).warningCount = verifier.warningCount + warnings.length := by
  induction warnings generalizing verifier with
  | nil => rfl
  | cons warning rest ih =>
    have tail := ih (verifier.warn warning)
    simp only [warnAll, List.foldl_cons, List.length_cons, warn_warningCount] at tail ⊢
    omega

theorem settle_says (verifier : Verifier artifact) (key : MethodKey) (declaration : Declaration) :
    ∃ said, (verifier.settle key declaration).warnings = verifier.warnings ++ said ∧
      (verifier.settle key declaration).warningCount = verifier.warningCount + said.length ∧
      (said.filterMap Warning.topic?).Sublist [(.declaration, key)] := by
  refine ⟨_, settle_warnings .., warnAll_warningCount .., ?_⟩
  split <;> simp [Warning.topic?]

theorem mem_settled_iff {verifier : Verifier artifact} {key : MethodKey} :
    key ∈ verifier.settled ↔ ∃ phase, verifier.phase? key = some phase := by
  constructor
  · intro known
    cases found : verifier.phase? key with
    | none => exact absurd known (not_mem_settled found)
    | some phase => exact ⟨phase, rfl⟩
  · rintro ⟨phase, found⟩
    obtain ⟨entry, present, rfl⟩ := Option.map_eq_some_iff.mp found
    have same : entry.1 = key := by simpa using List.find?_some present
    exact List.mem_map.mpr ⟨entry, List.mem_of_find?_eq_some present, same⟩

def Knows (later earlier : Verifier artifact) : Prop :=
  ∀ ⦃key phase⦄, earlier.phase? key = some phase → later.phase? key = some phase

namespace Knows

variable {before after : Verifier artifact}

theorem of_phases (same : after.phases = before.phases) : after.Knows before := by
  intro key phase known
  simpa [phase?, same] using known

theorem settle {key : MethodKey} (unknown : before.phase? key = none) (declaration : Declaration) :
    (before.settle key declaration).Knows before := by
  intro other phase known
  have different : key ≠ other := by
    rintro rfl
    rw [unknown] at known
    cases known
  rw [phase?_settle, if_neg different]
  exact known

end Knows

/-- What may happen to a verifier: phases are added, each declared by a method, and warnings are given, with which
only methods are judged whose phases are added. -/
structure Advances (settings : Settings) (before after : Verifier artifact) : Prop where
  grown : before.loader.classes ⊆ after.loader.classes
  kept : ∀ ⦃key phase⦄, before.phase? key = some phase → after.phase? key = some phase
  declared : ∀ ⦃key phase⦄, after.phase? key = some phase → before.phase? key = some phase ∨
    ∃ item : DeclaredMethod artifact, item.key = key ∧ item.phase settings = .ok phase
  warned : ∃ said, after.warnings = before.warnings ++ said ∧
    after.warningCount = before.warningCount + said.length ∧ (said.filterMap Warning.topic?).Nodup ∧
    ∀ topic key, (topic, key) ∈ said.filterMap Warning.topic? → key ∉ before.settled ∧ key ∈ after.settled

namespace Advances

variable {settings : Settings} {before middle after : Verifier artifact}

theorem settled_subset (advances : Advances settings before after) {key : MethodKey} (known : key ∈ before.settled) :
    key ∈ after.settled := by
  obtain ⟨phase, found⟩ := mem_settled_iff.mp known
  exact mem_settled_iff.mpr ⟨phase, advances.kept found⟩

theorem of_phases (said : List Warning) (grown : before.loader.classes ⊆ after.loader.classes)
    (phases : after.phases = before.phases)
    (warnings : after.warnings = before.warnings ++ said)
    (counted : after.warningCount = before.warningCount + said.length)
    (other : ∀ warning ∈ said, warning.topic? = none) : Advances settings before after where
  grown := grown
  kept := Knows.of_phases phases
  declared key phase found := .inl (by simpa [phase?, phases] using found)
  warned := by
    have none : said.filterMap Warning.topic? = [] := List.filterMap_eq_nil_iff.mpr other
    exact ⟨said, warnings, counted, by simp [none], by simp [none]⟩

theorem refl (verifier : Verifier artifact) : Advances settings verifier verifier :=
  .of_phases [] (List.Subset.refl _) rfl (List.append_nil _).symm rfl (by simp)

theorem trans (first : Advances settings before middle) (second : Advances settings middle after) :
    Advances settings before after where
  grown := List.Subset.trans first.grown second.grown
  kept key phase found := second.kept (first.kept found)
  declared key phase found := by
    rcases second.declared found with earlier | here
    · exact first.declared earlier
    · exact .inr here
  warned := by
    obtain ⟨said, warnings, counted, distinct, fresh⟩ := first.warned
    obtain ⟨more, moreWarnings, moreCounted, moreDistinct, moreFresh⟩ := second.warned
    refine ⟨said ++ more, ?_, ?_, ?_, ?_⟩
    · rw [moreWarnings, warnings, List.append_assoc]
    · rw [moreCounted, counted, List.length_append, Nat.add_assoc]
    · -- A method that is judged first is settled by then, so it is not judged again.
      rw [List.filterMap_append]
      refine List.nodup_append.mpr ⟨distinct, moreDistinct, ?_⟩
      rintro ⟨topic, key⟩ earlier other later rfl
      exact (moreFresh topic key later).1 (fresh topic key earlier).2
    · intro topic key judged
      rw [List.filterMap_append] at judged
      rcases List.mem_append.mp judged with earlier | later
      · exact ⟨(fresh topic key earlier).1, second.settled_subset (fresh topic key earlier).2⟩
      · exact ⟨fun old => (moreFresh topic key later).1 (first.settled_subset old), (moreFresh topic key later).2⟩

theorem counted (advances : Advances settings .empty after) : after.warningCount = after.warnings.length := by
  obtain ⟨said, warnings, counted, _⟩ := advances.warned
  rw [counted, warnings]
  exact Nat.zero_add _

-- Judging a method: its phase is remembered, then others may be judged, and then there is something to say about the
-- method that it overrides.
theorem judge {item : DeclaredMethod artifact} {declaration : Declaration}
    (unknown : before.phase? item.key = none) (declares : item.declaration settings = .ok declaration)
    (rest : Advances settings (before.settle item.key declaration) middle) (closing : List Warning)
    (last : (closing.filterMap Warning.topic?).Sublist [(.overriding, item.key)]) :
    Advances settings before (middle.warnAll closing) where
  grown := by simpa using rest.grown
  kept key phase found := by
    have settled := rest.kept (Knows.settle unknown declaration found)
    simpa [phase?] using settled
  declared key phase found := by
    have known : middle.phase? key = some phase := by simpa [phase?] using found
    rcases rest.declared known with earlier | here
    · rw [phase?_settle] at earlier
      split at earlier
      next same =>
        cases earlier
        exact .inr ⟨item, same, phase_of_declaration declares⟩
      next => exact .inl earlier
    · exact .inr here
  warned := by
    obtain ⟨said, warnings, counted, distinct, fresh⟩ := rest.warned
    have new : item.key ∉ before.settled := not_mem_settled unknown
    have settled : item.key ∈ middle.settled := rest.settled_subset (by simp)
    obtain ⟨opening, settleWarnings, settleCounted, first⟩ := settle_says before item.key declaration
    -- The judgements are about this method, then about others, then about this method again, in another way.
    have within : ((opening ++ (said ++ closing)).filterMap Warning.topic?).Sublist
        ((.declaration, item.key) :: (said.filterMap Warning.topic? ++ [(.overriding, item.key)])) := by
      rw [List.filterMap_append, List.filterMap_append]
      exact first.append ((List.Sublist.refl _).append last)
    have others : ∀ topic, (topic, item.key) ∉ said.filterMap Warning.topic? :=
      fun topic judged => (fresh topic item.key judged).1 (by simp)
    refine ⟨opening ++ (said ++ closing), ?_, ?_, ?_, ?_⟩
    · rw [warnAll_warnings, warnings, settleWarnings, List.append_assoc, List.append_assoc]
    · rw [warnAll_warningCount, counted, settleCounted]
      simp only [List.length_append]
      omega
    · refine List.Nodup.sublist within (List.nodup_cons.mpr ⟨?_, ?_⟩)
      · simpa using others .declaration
      · refine List.nodup_append.mpr ⟨distinct, List.nodup_singleton _, ?_⟩
        rintro judgement judged other here rfl
        cases List.mem_singleton.mp here
        exact others _ judged
    · intro topic key judged
      have settledAfter : (middle.warnAll closing).settled = middle.settled := by simp [Verifier.settled]
      rw [settledAfter]
      rcases List.mem_cons.mp (within.subset judged) with here | later
      · cases here
        exact ⟨new, settled⟩
      · rcases List.mem_append.mp later with there | here
        · have old := (fresh topic key there).1
          rw [settled_settle, List.mem_cons, not_or] at old
          exact ⟨old.2, (fresh topic key there).2⟩
        · cases List.mem_singleton.mp here
          exact ⟨new, settled⟩

theorem recalls {item : DeclaredMethod artifact} {declaration : Declaration}
    (rest : Advances settings (before.settle item.key declaration) middle) (closing : List Warning) :
    (middle.warnAll closing).phase? item.key = some declaration.phase := by
  have found : (before.settle item.key declaration).phase? item.key = some declaration.phase := by
    rw [phase?_settle, if_pos rfl]
  simpa [phase?] using rest.kept found

theorem loading (verifier : Verifier artifact) {loader : Loader artifact}
    (grown : verifier.loader.classes ⊆ loader.classes) : Advances settings verifier { verifier with loader } :=
  .of_phases [] grown rfl (List.append_nil _).symm rfl (by simp)

end Advances

theorem topics_nothingOverridden (key : MethodKey) (marked : Bool) :
    ((if marked then [Warning.nothingOverridden key] else []).filterMap Warning.topic?).Sublist
      [(.overriding, key)] := by
  cases marked <;> simp [Warning.topic?]

theorem topics_overrideWarnings (key overridden : MethodKey) (phase other : Option Phase) :
    ((overrideWarnings key phase overridden other).filterMap Warning.topic?).Sublist [(.overriding, key)] := by
  unfold overrideWarnings
  split
  · split <;> simp [Warning.topic?]
  · simp

theorem phaseOf_advances (settings : Settings) (item : DeclaredMethod artifact) (verifier : Verifier artifact) :
    Advances settings verifier (stateOf (phaseOf settings item verifier)) ∧
      ∀ phase, answerOf (phaseOf settings item verifier) = .ok phase →
        (stateOf (phaseOf settings item verifier)).phase? item.key = some phase := by
  cases unknown : verifier.phase? item.key with
  | some phase =>
    rw [phaseOf_of_known unknown]
    refine ⟨.refl verifier, fun other same => ?_⟩
    cases same
    exact unknown
  | none =>
    rw [phaseOf_of_unknown unknown]
    cases declared : item.declaration settings with
    | error cause => exact ⟨.refl verifier, fun _ same => by cases same⟩
    | ok declaration =>
      have grown := (Loader.findOverridden_steady settings.libraries item : LoaderM.Steady [] _ _).grows
        (verifier.settle item.key declaration).loader
      simp only
      cases found : Loader.findOverridden settings.libraries item (verifier.settle item.key declaration).loader with
      | error cause loader =>
        rw [found] at grown
        exact ⟨.judge unknown declared (.loading _ grown) [] (by simp), fun _ same => by cases same⟩
      | ok overridden loader =>
        rw [found] at grown
        have loaded : Advances settings (verifier.settle item.key declaration)
          { verifier.settle item.key declaration with loader } := .loading _ grown
        cases overridden with
        | none =>
          refine ⟨.judge unknown declared loaded _ (topics_nothingOverridden ..), fun phase same => ?_⟩
          cases same
          exact loaded.recalls _
        | some above =>
          -- The note is for the log only.
          have noted : Advances settings (verifier.settle item.key declaration)
              ({ verifier.settle item.key declaration with loader }.note (.overrides item.key above.key)) :=
            .loading _ grown
          obtain ⟨next, _⟩ := phaseOf_advances settings above
            ({ verifier.settle item.key declaration with loader }.note (.overrides item.key above.key))
          have rest := noted.trans next
          simp only
          cases ran : phaseOf settings above
            ({ verifier.settle item.key declaration with loader }.note (.overrides item.key above.key)) with
          | error cause last =>
            rw [ran] at rest
            exact ⟨.judge unknown declared rest [] (by simp), fun _ same => by cases same⟩
          | ok phase last =>
            rw [ran] at rest
            refine ⟨.judge unknown declared rest _ (topics_overrideWarnings ..), fun phase same => ?_⟩
            cases same
            exact rest.recalls _
termination_by unvisited artifact.methodKeys verifier.settled
decreasing_by exact unvisited_cons_lt item.key_mem (not_mem_settled unknown)

-- A way in which verifiers may change that can go on and on, and that does not mind what else is loaded or logged.
structure Onward (changes : Verifier artifact → Verifier artifact → Prop) : Prop where
  refl : ∀ verifier, changes verifier verifier
  trans : ∀ ⦃before middle after⦄, changes before middle → changes middle after → changes before after
  loading : ∀ verifier loader, verifier.loader.classes ⊆ loader.classes → changes verifier { verifier with loader }

/-- An action that, however it ends, changes a verifier only in some way. -/
def Along (changes : Verifier artifact → Verifier artifact → Prop) {α : Type} (action : VerifierM artifact α) : Prop :=
  ∀ verifier, changes verifier (stateOf (action verifier))

namespace Along

variable {changes : Verifier artifact → Verifier artifact → Prop} {α β : Type}

theorem of_ok {action : VerifierM artifact α} (along : Along changes action) {before after : Verifier artifact} {value : α}
    (ran : action before = .ok value after) : changes before after := by
  have changed := along before
  rwa [ran] at changed

variable (onward : Onward changes)

include onward

theorem done (value : α) : Along changes (pure value : VerifierM artifact α) :=
  fun verifier => onward.refl verifier

theorem failed (cause : CheckError) : Along changes (throw cause : VerifierM artifact α) :=
  fun verifier => onward.refl verifier

theorem noting (event : Event) : Along changes (modify (·.note event) : VerifierM artifact PUnit) :=
  fun verifier => onward.loading verifier _ (List.Subset.refl _)

theorem lifting {action : LoaderM artifact α} {uses : α → List (LoadedClass artifact)}
    (steady : LoaderM.Steady [] action uses) : Along changes (liftM action : VerifierM artifact α) := by
  intro verifier
  have grown := steady.grows verifier.loader
  cases ran : action verifier.loader with
  | ok value loader =>
    rw [ran] at grown
    rw [lift_of_ok ran]
    exact onward.loading verifier loader grown
  | error cause loader =>
    rw [ran] at grown
    rw [lift_of_error ran]
    exact onward.loading verifier loader grown

theorem andThen {action : VerifierM artifact α} {rest : α → VerifierM artifact β} (first : Along changes action)
    (next : ∀ value, Along changes (rest value)) : Along changes (action >>= rest) := by
  intro verifier
  have here := first verifier
  cases ran : action verifier with
  | ok value middle =>
    rw [ran] at here
    rw [bind_of_ok ran]
    exact onward.trans here (next value middle)
  | error cause middle =>
    rw [ran] at here
    rw [bind_of_error ran]
    exact here

theorem forM {action : β → VerifierM artifact PUnit} (items : List β) (each : ∀ item, Along changes (action item)) :
    Along changes (items.forM action) := by
  induction items with
  | nil => exact done onward _
  | cons item rest ih => exact andThen onward (each item) fun _ => ih

variable {settings : Settings} (each : ∀ item, Along changes (verify settings item : VerifierM artifact Unit))

include each

theorem verifyClass (name : ClassName) : Along changes (verifyClass settings name : VerifierM artifact PUnit) :=
  andThen onward (lifting onward (Loader.load_steady name)) fun loaded => andThen onward (noting onward _) fun _ =>
    forM onward loaded.methods each

theorem verifyAll : Along changes (verifyAll settings : VerifierM artifact Nat) := by
  unfold Verifier.verifyAll
  split
  · exact failed onward _
  · exact andThen onward (forM onward _ (verifyClass onward each)) fun _ verifier => onward.refl verifier

end Along

theorem Onward.advances (settings : Settings) : Onward (Advances settings : Verifier artifact → _ → Prop) :=
  ⟨.refl, fun _ _ _ => .trans, fun verifier _ => .loading verifier⟩

section

variable {settings : Settings}

theorem warn_lasts {warning : Warning} (other : warning.topic? = none) :
    Along (Advances settings) (modify (·.warn warning) : VerifierM artifact PUnit) :=
  fun _ => .of_phases [warning] (List.Subset.refl _) rfl rfl rfl (by simpa using other)

variable (settings)

theorem getPhase_lasts (item : DeclaredMethod artifact) : Along (Advances settings) (getPhase settings item) :=
  fun verifier => (phaseOf_advances settings item verifier).1

theorem verifyCall_lasts (caller : MethodKey) (phase : Phase) (callee : DeclaredMethod artifact) :
    Along (Advances settings) (verifyCall settings caller phase callee) := by
  have onward : Onward (Advances settings : Verifier artifact → _ → Prop) := .advances settings
  refine .andThen onward (getPhase_lasts settings callee) fun found => ?_
  cases found with
  | none => exact .done onward _
  | some other =>
    by_cases same : other = phase
    · simpa [same] using Along.done onward ()
    · simpa [same] using warn_lasts rfl

theorem verify_lasts (item : DeclaredMethod artifact) : Along (Advances settings) (verify settings item) := by
  have onward : Onward (Advances settings : Verifier artifact → _ → Prop) := .advances settings
  refine .andThen onward (getPhase_lasts settings item) fun found => ?_
  cases found with
  | none => exact warn_lasts rfl
  | some phase =>
    refine .andThen onward (.lifting onward (Loader.callees_steady settings item)) fun callees => ?_
    exact .forM onward callees (verifyCall_lasts settings item.key phase)

theorem verifyClass_lasts (name : ClassName) :
    Along (Advances settings) (verifyClass settings name : VerifierM artifact PUnit) :=
  .verifyClass (.advances settings) (verify_lasts settings) name

end

end Verifier

end PhaseCheck
