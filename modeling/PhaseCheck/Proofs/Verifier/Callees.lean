import Mathlib.Data.List.Count
import Mathlib.Data.List.Nodup
import PhaseCheck.Proofs.Code.Calls
import PhaseCheck.Proofs.Descriptor.Methods
import PhaseCheck.Proofs.Verifier.Mismatches

set_option autoImplicit false

namespace PhaseCheck

theorem LoaderM.filterMap_of_mapM {artifact : Artifact} {α β : Type} {step : β → LoaderM artifact (Option α)}
    {uses : Option α → List (LoadedClass artifact)} (steady : ∀ item, Steady [] (step item) uses) {items : List β}
    {values : List (Option α)} {loader final : Loader artifact} (ran : items.mapM step loader = .ok values final) :
    values.filterMap id = items.filterMap fun item => (fresh (step item)).toOption.join := by
  induction items generalizing values loader with
  | nil =>
    cases ran
    rfl
  | cons item rest ih =>
    rw [List.mapM_cons] at ran
    obtain ⟨value, middle, here, ran⟩ := steps_of_bind_ok ran
    obtain ⟨others, last, there, ran⟩ := steps_of_bind_ok ran
    cases ran
    have answers : (fresh (step item)).toOption.join = value := by
      rw [(steady item).fresh_eq here]
      rfl
    rw [List.filterMap_cons, List.filterMap_cons, answers, ih there]
    rfl

namespace Loader

variable {artifact : Artifact}

def resolveAll (settings : Settings) (item : DeclaredMethod artifact) (references : List MethodRef) :
    LoaderM artifact (List (DeclaredMethod artifact)) := do
  let found ← references.mapM (resolve settings.libraries item.key)
  return found.filterMap id

theorem callees_of_calls {settings : Settings} {item : DeclaredMethod artifact} {body : Body}
    {references : List MethodRef} (checks : settings.checkCalls = true) (has : item.method.body = some body)
    (calls : body.calls item.owner.file.pool = .ok references) :
    callees settings item = resolveAll settings item references := by
  unfold callees
  rw [checks, has]
  simp only [calls]
  rfl

theorem resolve_finds {libraries : List String} {caller : MethodKey} {reference : MethodRef} {loader final : Loader artifact}
    {callee : DeclaredMethod artifact} (ran : resolve libraries caller reference loader = .ok (some callee) final) :
    callee.method.name = reference.name ∧ callee.method.type = reference.type := by
  obtain ⟨found, middle, _, ran⟩ := steps_of_bind_ok ran
  cases found with
  | none =>
    obtain ⟨_, _, _, ran⟩ := steps_of_bind_ok ran
    cases ran
  | some loaded =>
    obtain ⟨above, later, _, ran⟩ := steps_of_bind_ok ran
    cases resolved : (loaded :: above).findSome? (·.find? reference) with
    | none =>
      simp only [resolved] at ran
      obtain ⟨_, _, _, ran⟩ := steps_of_bind_ok ran
      cases ran
    | some other =>
      simp only [resolved] at ran
      cases ran
      obtain ⟨declaring, _, found⟩ := List.exists_of_findSome?_eq_some resolved
      simpa using List.find?_some found

end Loader

namespace DeclaredMethod

variable {artifact : Artifact} (settings : Settings) (item : DeclaredMethod artifact)

def references : List MethodRef :=
  match settings.checkCalls, item.method.body with
  | true, some body => (body.calls item.owner.file.pool).toOption.getD []
  | _, _ => []

def callee? (reference : MethodRef) : Option (DeclaredMethod artifact) :=
  (LoaderM.fresh (Loader.resolve settings.libraries item.key reference)).toOption.join

/-- The calls that lead to a method, with the methods that they lead to. -/
def links : List (MethodRef × DeclaredMethod artifact) :=
  (item.references settings).filterMap fun reference => (item.callee? settings reference).map (reference, ·)

theorem references_nodup : (item.references settings).Nodup := by
  unfold references
  split
  next body _ _ =>
    unfold Body.calls
    cases body.callSites with
    | error cause => exact .nil
    | ok sites =>
      simp only [bind, Except.bind]
      cases sites.mapM fun site => item.owner.file.pool.methodRef site.method with
      | error cause => exact .nil
      | ok methods =>
        refine (eraseDups_keepsFirst methods).ordered.imp fun earlier same => ?_
        subst same
        exact Nat.lt_irrefl _ earlier
  next => exact .nil

theorem links_references_nodup : ((item.links settings).map Prod.fst).Nodup := by
  unfold links
  rw [List.map_filterMap]
  refine (item.references_nodup settings).filterMap fun first second reference here there => ?_
  simp only [Option.map_map, Option.mem_def, Option.map_eq_some_iff] at here there
  obtain ⟨_, _, rfl⟩ := here
  obtain ⟨_, _, rfl⟩ := there
  rfl

variable {settings item}

theorem callees_eq_links {callees : List (DeclaredMethod artifact)} (found : item.callees settings = .ok callees) :
    callees = (item.links settings).map Prod.snd := by
  obtain ⟨final, ran⟩ := ok_of_answer found
  unfold links
  rw [List.map_filterMap]
  simp only [Option.map_map, Function.comp_def, Option.map_id']
  cases checks : settings.checkCalls with
  | false =>
    simp only [Loader.callees, references, checks] at ran ⊢
    cases ran
    rfl
  | true =>
    cases has : item.method.body with
    | none =>
      simp only [Loader.callees, references, checks, has] at ran ⊢
      cases ran
      rfl
    | some body =>
      simp only [references, checks, has]
      cases calls : body.calls item.owner.file.pool with
      | error cause =>
        simp only [Loader.callees, checks, has, calls] at ran
        cases ran
      | ok references =>
        rw [Loader.callees_of_calls checks has calls] at ran
        obtain ⟨values, last, mapped, ran⟩ := steps_of_bind_ok ran
        cases ran
        exact LoaderM.filterMap_of_mapM (Loader.resolve_steady settings.libraries item.key) mapped

theorem link_finds {reference : MethodRef} {callee : DeclaredMethod artifact}
    (link : (reference, callee) ∈ item.links settings) :
    callee.method.name = reference.name ∧ callee.method.type = reference.type := by
  obtain ⟨other, _, leads⟩ := List.mem_filterMap.mp link
  obtain ⟨found, leads, same⟩ := Option.map_eq_some_iff.mp leads
  cases same
  unfold callee? at leads
  cases resolved : LoaderM.fresh (Loader.resolve settings.libraries item.key reference) with
  | error cause =>
    rw [resolved] at leads
    cases leads
  | ok value =>
    rw [resolved] at leads
    cases leads
    obtain ⟨final, ran⟩ := ok_of_answer resolved
    exact Loader.resolve_finds ran

theorem type_eq_of_key {other : DeclaredMethod artifact} (same : item.key = other.key) :
    item.method.type = other.method.type := by
  obtain ⟨_, _, decoded⟩ := item.owner.decode_bytes_eq
  obtain ⟨_, _, decodedOther⟩ := other.owner.decode_bytes_eq
  have parsed := ClassFile.parse_descriptor decoded item.declared
  have parsedOther := ClassFile.parse_descriptor decodedOther other.declared
  exact (MethodType.eq_iff_of_parse parsed parsedOther).mp (congrArg MethodKey.descriptor same)

-- Calls that lead to the same method can only differ in the class that they name and in whether it is an interface.
theorem link_eq_iff {first second : MethodRef × DeclaredMethod artifact} (here : first ∈ item.links settings)
    (there : second ∈ item.links settings) (same : first.2.key = second.2.key) :
    first = second ↔ first.1.owner = second.1.owner ∧ first.1.inInterface = second.1.inInterface := by
  obtain ⟨reference, callee⟩ := first
  obtain ⟨otherReference, other⟩ := second
  constructor
  · rintro ⟨⟩
    exact ⟨rfl, rfl⟩
  · rintro ⟨owner, kind⟩
    obtain ⟨name, type⟩ := link_finds here
    obtain ⟨otherName, otherType⟩ := link_finds there
    have sameName : reference.name = otherReference.name :=
      name.symm.trans ((congrArg MethodKey.name same).trans otherName)
    have sameType : reference.type = otherReference.type := type.symm.trans ((type_eq_of_key same).trans otherType)
    have sameReference : reference = otherReference := by
      cases reference
      cases otherReference
      simp_all
    exact List.inj_on_of_nodup_map (links_references_nodup settings item) here there sameReference

theorem links_keys_nodup_iff :
    ((item.links settings).map (·.2.key)).Nodup ↔
      ∀ first ∈ item.links settings, ∀ second ∈ item.links settings, first.2.key = second.2.key →
        first.1.owner = second.1.owner ∧ first.1.inInterface = second.1.inInterface := by
  rw [List.nodup_map_iff_inj_on (links_references_nodup settings item).of_map]
  constructor
  · intro apart first here second there same
    exact (link_eq_iff here there same).mp (apart first here second there same)
  · intro spelled first here second there same
    exact (link_eq_iff here there same).mpr (spelled first here second there same)

theorem count_calls_le (key : MethodKey) :
    (item.calls settings).count (item.key, key) ≤ ((item.links settings).map (·.2.key)).count key := by
  unfold calls
  cases found : item.callees settings with
  | error cause => exact Nat.zero_le _
  | ok callees =>
    -- The caller is the same in all the calls, so they can be counted by callee.
    have paired : callees.map (fun callee => (item.key, callee.key)) =
        ((item.links settings).map (·.2.key)).map (Prod.mk item.key) := by
      rw [callees_eq_links found, List.map_map, List.map_map]
      rfl
    simp only [paired]
    exact Nat.le_of_eq (List.count_map_of_injective _ _ (fun _ _ same => (Prod.mk.inj same).2) key)

end DeclaredMethod

namespace Verifier

variable {artifact : Artifact}

/-- A method is compared with what it calls once for each different call. So no method comes twice just in case all calls
that lead to it name the same class, and name it in the same way. When a method is checked there are at most as many
warnings about its calls of some method as there are different calls that lead to it. -/
theorem callees_once_per_reference (settings : Settings) (item : DeclaredMethod artifact) :
    ((item.links settings).map Prod.fst).Nodup ∧
    (∀ loader found final, Loader.callees settings item loader = .ok found final →
      found = (item.links settings).map Prod.snd ∧
      ((found.map DeclaredMethod.key).Nodup ↔
        ∀ first ∈ item.links settings, ∀ second ∈ item.links settings, first.2.key = second.2.key →
          first.1.owner = second.1.owner ∧ first.1.inInterface = second.1.inInterface)) ∧
    ∀ verifier : Verifier artifact, ∃ said,
      (stateOf (verify settings item verifier)).warnings = verifier.warnings ++ said ∧
      ∀ key, said.countP (fun warning => warning.call? = some (item.key, key)) ≤
        ((item.links settings).map (·.2.key)).count key := by
  refine ⟨item.links_references_nodup settings, ?_, ?_⟩
  · intro loader found final ran
    have steady : LoaderM.Steady [] (Loader.callees settings item) _ := Loader.callees_steady settings item
    have same := DeclaredMethod.callees_eq_links (steady.fresh_eq ran)
    refine ⟨same, ?_⟩
    rw [same, List.map_map]
    exact DeclaredMethod.links_keys_nodup_iff
  · intro verifier
    obtain ⟨said, warnings, _, listed⟩ := (verify_speaks settings item verifier).said
    refine ⟨said, warnings, fun key => ?_⟩
    calc said.countP (fun warning => warning.call? = some (item.key, key))
      _ = (said.filterMap Warning.call?).count (item.key, key) := by
        rw [List.count_filterMap]
        exact List.countP_congr fun warning _ => by simp
      _ ≤ (item.calls settings).count (item.key, key) := listed.count_le _
      _ ≤ ((item.links settings).map (·.2.key)).count key := DeclaredMethod.count_calls_le key

def repeatingArtifact : Artifact :=
  ClassStore.toArtifact ⟨[(callingName, callingFile 80 81 70),
    (⟨"Q", by decide, by decide⟩, annotatedFile 81 67 83)]⟩

theorem repeatingArtifact_distinct (loaded : LoadedClass repeatingArtifact) : loaded.MethodsDistinct := by
  have checked : ∀ file ∈ repeatingArtifact.classes,
      (file.methods.map fun method => (method.name, method.descriptor)).Nodup := by decide +kernel
  exact checked loaded.file (Artifact.mem_classes_of_decode loaded.decoded)

theorem repeatingArtifact_calls :
    ∃ (item : DeclaredMethod repeatingArtifact) (found : List (DeclaredMethod repeatingArtifact)) (key : MethodKey)
        (loader : Loader repeatingArtifact) (final : Verifier repeatingArtifact),
      Loader.callees letterSettings item .empty = .ok found loader ∧ found.map DeclaredMethod.key = [key, key] ∧
      verify letterSettings item .empty = .ok () final ∧
      final.warnings = [.callMismatch item.key .flow key .setup, .callMismatch item.key .flow key .setup] := by
  have checked : ((repeatingArtifact.listed.toOption.getD []).any fun item =>
      succeeds (fun found _ => succeeds (fun _ final =>
          decide (∃ key ∈ found.map DeclaredMethod.key, found.map DeclaredMethod.key = [key, key] ∧
            final.warnings = [.callMismatch item.key .flow key .setup, .callMismatch item.key .flow key .setup]))
        (verify letterSettings item .empty))
        (Loader.callees letterSettings item .empty)) = true := by
    delta verify Loader.callees
    rw [calls_eq_knownCalls]
    decide +kernel
  obtain ⟨item, _, checked⟩ := List.any_eq_true.mp checked
  obtain ⟨found, loader, resolving, checked⟩ := exists_of_succeeds checked
  obtain ⟨_, final, ran, checked⟩ := exists_of_succeeds checked
  obtain ⟨key, _, twice, warnings⟩ := of_decide_eq_true checked
  exact ⟨item, found, key, loader, final, resolving, twice, ran, warnings⟩

theorem callees_once_per_reference_twice :
    ∃ (item : DeclaredMethod repeatingArtifact) (found : List (DeclaredMethod repeatingArtifact))
        (loader : Loader repeatingArtifact) (final : Verifier repeatingArtifact) (key : MethodKey),
      Loader.callees letterSettings item .empty = .ok found loader ∧
      found = (item.links letterSettings).map Prod.snd ∧
      (∃ first ∈ item.links letterSettings, ∃ second ∈ item.links letterSettings, first.2.key = second.2.key ∧
        ¬(first.1.owner = second.1.owner ∧ first.1.inInterface = second.1.inInterface)) ∧
      verify letterSettings item .empty = .ok () final ∧
      2 = final.warnings.countP (fun warning => warning.call? = some (item.key, key)) ∧
      2 ≤ ((item.links letterSettings).map (·.2.key)).count key := by
  obtain ⟨item, found, key, loader, final, resolving, same, ran, warnings⟩ := repeatingArtifact_calls
  obtain ⟨_, once, bounded⟩ := callees_once_per_reference letterSettings item
  obtain ⟨linked, spelled⟩ := once .empty found loader resolving
  have twice : ¬(found.map DeclaredMethod.key).Nodup := by simp [same]
  have apart := mt spelled.mpr twice
  push Not at apart
  obtain ⟨first, here, second, there, meets, differ⟩ := apart
  obtain ⟨said, adds, atMost⟩ := bounded .empty
  have all : final.warnings = said := by
    rw [ran] at adds
    exact adds
  have two : 2 = final.warnings.countP (fun warning => warning.call? = some (item.key, key)) := by
    rw [warnings]
    simp [Warning.call?]
  refine ⟨item, found, loader, final, key, resolving, linked, ⟨first, here, second, there, meets, ?_⟩, ran,
    two, ?_⟩
  · rintro ⟨owner, kind⟩
    exact differ owner kind
  · rw [two, all]
    exact atMost key

-- A callee that is found twice, and warned about twice, although no class declares a method twice.
theorem callee_compared_twice :
    (∀ loaded : LoadedClass repeatingArtifact, loaded.MethodsDistinct) ∧ letterSettings.checkCalls = true ∧
    ∃ (item : DeclaredMethod repeatingArtifact) (found : List (DeclaredMethod repeatingArtifact)) (key : MethodKey)
        (loader : Loader repeatingArtifact) (final : Verifier repeatingArtifact),
      Loader.callees letterSettings item .empty = .ok found loader ∧ found.map DeclaredMethod.key = [key, key] ∧
      verify letterSettings item .empty = .ok () final ∧
      final.warnings = [.callMismatch item.key .flow key .setup, .callMismatch item.key .flow key .setup] :=
  ⟨repeatingArtifact_distinct, rfl, repeatingArtifact_calls⟩

end Verifier

end PhaseCheck
