import PhaseCheck.Proofs.Hierarchy.Transfer
import PhaseCheck.Proofs.Verifier.Completion

set_option autoImplicit false

namespace PhaseCheck

theorem mapM_ok_of_perm {α β : Type} {step : α → Except CheckError β} {items others : List α} (perm : items.Perm others)
    {values : List β} (ran : items.mapM step = .ok values) :
    ∃ found, others.mapM step = .ok found ∧ values.Perm found := by
  induction perm generalizing values with
  | nil => exact ⟨values, ran, .refl _⟩
  | cons item _ ih =>
    rw [List.mapM_cons] at ran
    obtain ⟨value, here, ran⟩ := values_of_bind_ok ran
    obtain ⟨rest, there, ran⟩ := values_of_bind_ok ran
    cases ran
    obtain ⟨found, mapped, permuted⟩ := ih there
    refine ⟨value :: found, ?_, permuted.cons value⟩
    rw [List.mapM_cons, here, mapped]
    rfl
  | swap item other rest =>
    rw [List.mapM_cons, List.mapM_cons] at ran
    obtain ⟨value, here, ran⟩ := values_of_bind_ok ran
    obtain ⟨_, ranRest, ran⟩ := values_of_bind_ok ran
    obtain ⟨otherValue, next, ranRest⟩ := values_of_bind_ok ranRest
    obtain ⟨values, there, ranRest⟩ := values_of_bind_ok ranRest
    cases ranRest
    cases ran
    refine ⟨otherValue :: value :: values, ?_, .swap ..⟩
    rw [List.mapM_cons, List.mapM_cons, next, here, there]
    rfl
  | trans _ _ ihFirst ihSecond =>
    obtain ⟨middle, mapped, permuted⟩ := ihFirst ran
    obtain ⟨found, mappedLast, permutedLast⟩ := ihSecond mapped
    exact ⟨found, mappedLast, permuted.trans permutedLast⟩

theorem tellEach_of_perm {β : Type} {tells : β → Except CheckError (List Warning)} {items others : List β}
    (perm : items.Perm others) {said : List Warning} (told : tellEach tells items = .ok said) :
    ∃ more, tellEach tells others = .ok more ∧ said.Perm more := by
  obtain ⟨all, mapped, told⟩ := values_of_bind_ok told
  cases told
  obtain ⟨found, mappedOthers, permuted⟩ := mapM_ok_of_perm perm mapped
  refine ⟨found.flatten, ?_, permuted.flatten⟩
  rw [tellEach, mappedOthers]
  rfl

theorem tellEach_map {α β : Type} (tells : β → Except CheckError (List Warning)) (move : α → β) (items : List α) :
    tellEach tells (items.map move) = tellEach (fun item => tells (move item)) items := by
  rw [tellEach, tellEach, List.mapM_map]
  rfl

section

variable {artifact : Artifact} {settings : Settings} {listed others : List (DeclaredMethod artifact)}

theorem Reached.mono (among : listed ⊆ others) {item : DeclaredMethod artifact}
    (reached : Reached settings listed item) : Reached settings others item := by
  induction reached with
  | listed present => exact .listed (among present)
  | called present phased calls called => exact .called (among present) phased calls called
  | overridden _ overrides ih => exact .overridden ih overrides

theorem Passes.of_perm (passes : Passes settings listed) (perm : listed.Perm others) : Passes settings others where
  tells item within := passes.tells item (perm.mem_iff.mpr within)
  judges item reached := passes.judges item (reached.mono perm.symm.subset)

theorem Reports.perm {warnings more : List Warning} (reports : Reports settings listed warnings)
    (reportsOther : Reports settings others more) (perm : listed.Perm others) : warnings.Perm more := by
  obtain ⟨reached, forListed, own, distinct, all, told, judged, warned⟩ := reports
  obtain ⟨reachedOther, _, _, distinctOther, allOther, toldOther, judgedOther, warnedOther⟩ := reportsOther
  have same : reached.Perm reachedOther := by
    refine (List.perm_ext_iff_of_nodup distinct distinctOther).mpr fun item => ?_
    rw [all, allOther]
    exact ⟨Reached.mono perm.subset, Reached.mono perm.symm.subset⟩
  obtain ⟨_, again, listedPerm⟩ := tellEach_of_perm perm told
  rw [toldOther] at again
  cases again
  obtain ⟨_, again, ownPerm⟩ := tellEach_of_perm same judged
  rw [judgedOther] at again
  cases again
  exact warned.trans ((listedPerm.append ownPerm).trans warnedOther.symm)

end

section

variable {first second : Artifact} (files : first.file = second.file) {settings : Settings}

namespace DeclaredMethod

theorem transfer_injective : Function.Injective (DeclaredMethod.transfer files) := by
  intro item other same
  exact congrArg (DeclaredMethod.transfer files.symm) same

theorem overridden_transfer (item : DeclaredMethod first) :
    (item.transfer files).overridden settings = (item.overridden settings).map (Option.map (·.transfer files)) :=
  (Loader.findOverridden_matches files settings.libraries item).fresh_eq

theorem callees_transfer (item : DeclaredMethod first) :
    (item.transfer files).callees settings = (item.callees settings).map (List.map (·.transfer files)) :=
  (Loader.callees_matches files settings item).fresh_eq

theorem ownWarnings_transfer (item : DeclaredMethod first) :
    (item.transfer files).ownWarnings settings = item.ownWarnings settings := by
  have declared : (item.transfer files).declaration settings = item.declaration settings := rfl
  simp only [ownWarnings, declared, overridden_transfer]
  cases item.declaration settings with
  | error cause => rfl
  | ok declaration =>
    cases item.overridden settings with
    | error cause => rfl
    | ok above => cases above <;> rfl

theorem listedWarnings_transfer (item : DeclaredMethod first) :
    (item.transfer files).listedWarnings settings = item.listedWarnings settings := by
  have phased : (item.transfer files).phase settings = item.phase settings := rfl
  simp only [listedWarnings, phased, callees_transfer]
  cases item.phase settings with
  | error cause => rfl
  | ok phase =>
    cases phase with
    | none => rfl
    | some phase =>
      cases item.callees settings with
      | error cause => rfl
      | ok callees => exact tellEach_map (callWarnings settings item.key phase) (·.transfer files) callees

end DeclaredMethod

variable {listed : List (DeclaredMethod first)}

theorem Reached.transfer {item : DeclaredMethod first} (reached : Reached settings listed item) :
    Reached settings (listed.map (·.transfer files)) (item.transfer files) := by
  induction reached with
  | listed present => exact .listed (List.mem_map_of_mem present)
  | called present phased calls called =>
    refine .called (List.mem_map_of_mem present) phased ?_ (List.mem_map_of_mem called)
    rw [DeclaredMethod.callees_transfer, calls]
    rfl
  | overridden _ overrides ih =>
    refine .overridden ih ?_
    rw [DeclaredMethod.overridden_transfer, overrides]
    rfl

theorem reached_map_transfer {item : DeclaredMethod second} :
    Reached settings (listed.map (·.transfer files)) item ↔ Reached settings listed (item.transfer files.symm) := by
  constructor
  · intro reached
    have back := reached.transfer files.symm
    rwa [List.map_map, show (DeclaredMethod.transfer files.symm ∘ DeclaredMethod.transfer files) = id from rfl,
      List.map_id] at back
  · exact Reached.transfer files

theorem Reports.transfer {warnings : List Warning} (reports : Reports settings listed warnings) :
    Reports settings (listed.map (·.transfer files)) warnings := by
  obtain ⟨reached, forListed, own, distinct, all, told, judged, warned⟩ := reports
  refine ⟨reached.map (·.transfer files), forListed, own, ?_, ?_, ?_, ?_, warned⟩
  · exact distinct.map (DeclaredMethod.transfer_injective files)
  · intro item
    rw [reached_map_transfer, ← all]
    constructor
    · intro within
      obtain ⟨_, found, rfl⟩ := List.mem_map.mp within
      exact found
    · intro within
      exact List.mem_map.mpr ⟨_, within, rfl⟩
  · rw [tellEach_map]
    simpa only [DeclaredMethod.listedWarnings_transfer] using told
  · rw [tellEach_map]
    simpa only [DeclaredMethod.ownWarnings_transfer] using judged

theorem mapM_load_transfer {names : List ClassName} {classes : List (LoadedClass first)}
    (loads : names.mapM (fun name => LoaderM.fresh (Loader.load name)) = .ok classes) :
    names.mapM (fun name => LoaderM.fresh (Loader.load name)) = .ok (classes.map (·.transfer files)) := by
  induction names generalizing classes with
  | nil =>
    cases loads
    rfl
  | cons name rest ih =>
    rw [List.mapM_cons] at loads
    obtain ⟨loaded, here, loads⟩ := values_of_bind_ok loads
    obtain ⟨others, there, loads⟩ := values_of_bind_ok loads
    cases loads
    have moved : LoaderM.fresh (Loader.load name) = .ok (loaded.transfer files) := by
      rw [LoaderM.fresh, Loader.answer_load] at here ⊢
      rw [Artifact.load_transfer files, here]
      rfl
    rw [List.mapM_cons, moved, ih there]
    rfl

end

namespace Verifier

theorem verifyAll_ok_of_perm {first second : Artifact} {names others : List ClassName} {settings : Settings}
    (files : first.file = second.file) (named : first.names = .ok names) (namedOther : second.names = .ok others)
    (perm : names.Perm others) (distinct : ∀ loaded : LoadedClass first, loaded.MethodsDistinct)
    {count : Nat} {final : Verifier first} (ran : verifyAll settings .empty = .ok count final) :
    ∃ last : Verifier second, verifyAll settings .empty = .ok count last ∧ final.warnings.Perm last.warnings := by
  obtain ⟨looping, counted⟩ := (verifyAll_ok_iff named).mp ran
  obtain ⟨classes, loads⟩ := classes_of_verifyClass looping
  -- The other artifact has the same classes, in another order.
  obtain ⟨found, mapped, permuted⟩ := mapM_ok_of_perm perm loads
  have loadsOther := mapM_load_transfer files mapped
  have distinctOther : ∀ loaded : LoadedClass second, loaded.MethodsDistinct :=
    fun loaded => distinct (loaded.transfer files.symm)
  have listed : ((classes.flatMap LoadedClass.methods).map (·.transfer files)).Perm
      ((found.map (·.transfer files)).flatMap LoadedClass.methods) := by
    rw [List.flatMap_map]
    simp only [LoadedClass.methods_transfer, ← List.map_flatMap]
    exact (permuted.flatMap_right _).map _
  have reports := (reports_of_verifyClasses loads distinct looping).transfer files
  obtain ⟨last, loopingOther⟩ := verifyClasses_complete loadsOther distinctOther (reports.passes.of_perm listed)
  have warned := reports.perm (reports_of_verifyClasses loadsOther distinctOther loopingOther) listed
  exact ⟨last, (verifyAll_ok_iff namedOther).mpr ⟨loopingOther, counted.trans warned.length_eq⟩, warned⟩

/-- Artifacts with the same class files that list the same classes are checked alike: either both checks come to an end
or none does, and then they count and say the same. -/
theorem verifyAll_listing_order {first second : Artifact} {names others : List ClassName} (settings : Settings)
    (files : first.file = second.file) (named : first.names = .ok names) (namedOther : second.names = .ok others)
    (perm : names.Perm others) (distinct : ∀ loaded : LoadedClass first, loaded.MethodsDistinct) :
    ((∃ count final, verifyAll settings (.empty : Verifier first) = .ok count final) ↔
      ∃ count final, verifyAll settings (.empty : Verifier second) = .ok count final) ∧
    ∀ count final countOther finalOther, verifyAll settings (.empty : Verifier first) = .ok count final →
      verifyAll settings (.empty : Verifier second) = .ok countOther finalOther →
      count = countOther ∧ final.warnings.Perm finalOther.warnings ∧ final.messages.Perm finalOther.messages := by
  refine ⟨⟨?_, ?_⟩, ?_⟩
  · rintro ⟨count, final, ran⟩
    obtain ⟨last, ranOther, _⟩ := verifyAll_ok_of_perm files named namedOther perm distinct ran
    exact ⟨count, last, ranOther⟩
  · rintro ⟨count, final, ran⟩
    obtain ⟨last, ranOther, _⟩ := verifyAll_ok_of_perm files.symm namedOther named perm.symm
      (fun loaded => distinct (loaded.transfer files.symm)) ran
    exact ⟨count, last, ranOther⟩
  · intro count final countOther finalOther ran ranOther
    obtain ⟨last, again, warned⟩ := verifyAll_ok_of_perm files named namedOther perm distinct ran
    rw [ranOther] at again
    cases again
    exact ⟨rfl, warned, warned.map _⟩

-- The class that is overridden comes first.
def swappedArtifact : Artifact :=
  { mismatchedArtifact with names := mismatchedArtifact.names.map List.reverse }

theorem mismatchedArtifact_distinct (loaded : LoadedClass mismatchedArtifact) : loaded.MethodsDistinct := by
  have checked : ∀ file ∈ mismatchedArtifact.classes,
      (file.methods.map fun method => (method.name, method.descriptor)).Nodup := by decide +kernel
  exact checked loaded.file (Artifact.mem_classes_of_decode loaded.decoded)

theorem verifyAll_listing_order_swapped :
    ∃ (names : List ClassName) (final : Verifier mismatchedArtifact) (finalOther : Verifier swappedArtifact),
      mismatchedArtifact.names = .ok names ∧ swappedArtifact.names = .ok names.reverse ∧
      verifyAll letterSettings .empty = .ok 1 final ∧ verifyAll letterSettings .empty = .ok 1 finalOther ∧
      final.warnings.Perm finalOther.warnings ∧ final.messages.Perm finalOther.messages := by
  obtain ⟨names, named⟩ : ∃ names, mismatchedArtifact.names = .ok names := ⟨_, rfl⟩
  have namedOther : swappedArtifact.names = .ok names.reverse := congrArg (Except.map List.reverse) named
  have files : mismatchedArtifact.file = swappedArtifact.file := rfl
  have order := verifyAll_listing_order letterSettings files named namedOther (List.reverse_perm names).symm
    mismatchedArtifact_distinct
  have checked : (match verifyAll letterSettings (.empty : Verifier mismatchedArtifact) with
      | .ok count _ => decide (count = 1)
      | .error _ _ => false) = true := by decide +kernel
  cases ran : verifyAll letterSettings (.empty : Verifier mismatchedArtifact) with
  | error cause last => simp [ran] at checked
  | ok count final =>
    rw [ran] at checked
    obtain rfl : count = 1 := of_decide_eq_true checked
    obtain ⟨countOther, finalOther, ranOther⟩ := order.1.mp ⟨1, final, ran⟩
    obtain ⟨rfl, warned, written⟩ := order.2 1 final countOther finalOther ran ranOther
    exact ⟨names, final, finalOther, named, namedOther, rfl, ranOther, warned, written⟩

end Verifier

end PhaseCheck
