import PhaseCheck.Proofs.Hierarchy.Transparency
import PhaseCheck.Proofs.Verifier.Refinement

set_option autoImplicit false

namespace PhaseCheck

namespace DeclaredMethod

variable {artifact : Artifact}

def DeclaresFirst (settings : Settings) (item : DeclaredMethod artifact) (phase : Option Phase) : Prop :=
  ∃ notes, item.annotations = .ok notes ∧ phase = settings.firstTag? notes

theorem declaresFirst_of_phase {settings : Settings} {item : DeclaredMethod artifact} {phase : Option Phase}
    (found : item.phase settings = .ok phase) : item.DeclaresFirst settings phase := by
  obtain ⟨declaration, declared, same⟩ := values_of_bind_ok found
  cases same
  cases read : item.annotations with
  | error cause =>
    rw [DeclaredMethod.declaration_of_error read] at declared
    cases declared
  | ok notes =>
    rw [DeclaredMethod.declaration_of_ok read] at declared
    cases declared
    exact ⟨notes, read, settings.phase_declaration notes⟩

theorem owner_name (item : DeclaredMethod artifact) : item.owner.name = item.key.owner :=
  (item.owner.method_owner item.declared).symm

theorem owner_eq_of_key {item other : DeclaredMethod artifact} (same : item.key = other.key) :
    item.owner = other.owner := by
  apply LoadedClass.eq_of_name
  rw [owner_name, owner_name, same]

end DeclaredMethod

namespace Verifier

variable {artifact : Artifact}

inductive Call (artifact : Artifact) where
  | consult (request : Loader.Request)
  | getPhase (item : DeclaredMethod artifact)
  | verify (item : DeclaredMethod artifact)
  | verifyAll

namespace Call

def perform (settings : Settings) : Call artifact → VerifierM artifact PUnit
  | .consult request => do
    let _ ← (request.perform settings.libraries : LoaderM artifact _)
    return
  | .getPhase item => do
    let _ ← Verifier.getPhase settings item
    return
  | .verify item => Verifier.verify settings item
  | .verifyAll => do
    let _ ← Verifier.verifyAll settings
    return

theorem perform_along {changes : Verifier artifact → Verifier artifact → Prop} (onward : Onward changes)
    {settings : Settings} (finding : ∀ item, Along changes (Verifier.getPhase settings item : VerifierM artifact _))
    (checking : ∀ item, Along changes (Verifier.verify settings item : VerifierM artifact Unit))
    (call : Call artifact) : Along changes (call.perform settings) := by
  cases call with
  | consult request =>
    obtain ⟨_, steady⟩ := request.perform_steady artifact settings.libraries
    exact .andThen onward (.lifting onward steady) fun _ => .done onward _
  | getPhase item => exact .andThen onward (finding item) fun _ => .done onward _
  | verify item => exact checking item
  | verifyAll => exact .andThen onward (.verifyAll onward checking) fun _ => .done onward _

end Call

def after (settings : Settings) (calls : List (Call artifact)) : Verifier artifact :=
  calls.foldl (fun verifier call => stateOf (call.perform settings verifier)) .empty

theorem after_along {changes : Verifier artifact → Verifier artifact → Prop} (onward : Onward changes)
    {settings : Settings} (finding : ∀ item, Along changes (getPhase settings item : VerifierM artifact _))
    (checking : ∀ item, Along changes (verify settings item : VerifierM artifact Unit))
    (earlier later : List (Call artifact)) : changes (after settings earlier) (after settings (earlier ++ later)) := by
  induction later generalizing earlier with
  | nil => rw [List.append_nil]; exact onward.refl _
  | cons call rest ih =>
    have step : changes (after settings earlier) (after settings (earlier ++ [call])) := by
      simpa [after] using call.perform_along onward finding checking (after settings earlier)
    have steps := ih (earlier ++ [call])
    rw [List.append_assoc, List.singleton_append] at steps
    exact onward.trans step steps

theorem after_advances (settings : Settings) (earlier later : List (Call artifact)) :
    Advances settings (after settings earlier) (after settings (earlier ++ later)) :=
  after_along (.advances settings) (getPhase_lasts settings) (verify_lasts settings) earlier later

namespace Advances

variable {settings : Settings} {verifier : Verifier artifact}

theorem declared_of_empty (advances : Advances settings .empty verifier) {key : MethodKey} {phase : Option Phase}
    (found : verifier.phase? key = some phase) :
    ∃ item : DeclaredMethod artifact, item.key = key ∧ item.DeclaresFirst settings phase := by
  rcases advances.declared found with earlier | ⟨item, same, declared⟩
  · cases earlier
  · exact ⟨item, same, DeclaredMethod.declaresFirst_of_phase declared⟩

theorem judged_once (advances : Advances settings .empty verifier) (topic : Topic) (key : MethodKey) :
    verifier.warnings.countP (fun warning => warning.topic? = some (topic, key)) ≤ 1 := by
  obtain ⟨said, warnings, _, distinct, _⟩ := advances.warned
  have all : verifier.warnings = said := warnings
  have once := List.nodup_iff_count_le_one.mp distinct (topic, key)
  rw [List.count_filterMap] at once
  rw [all]
  refine Nat.le_trans (Nat.le_of_eq (List.countP_congr fun warning _ => ?_)) once
  simp

end Advances

/-- After any calls, the warnings have been counted, the phases that are remembered stay and have been declared, first
of all, by a method of the class, name and descriptor that they are remembered for, so is each phase that is given as an
answer, and each method has been judged at most once for its declaration and once for what it overrides. -/
theorem after_invariant (settings : Settings) (calls : List (Call artifact)) :
    (after settings calls).warningCount = (after settings calls).messages.length ∧
    (∀ more key phase, (after settings calls).phase? key = some phase →
      (after settings (calls ++ more)).phase? key = some phase) ∧
    (∀ key phase, (after settings calls).phase? key = some phase →
      ∃ item : DeclaredMethod artifact, item.owner.name = key.owner ∧ item.method.name = key.name ∧
        item.method.descriptor = key.descriptor ∧ item.DeclaresFirst settings phase) ∧
    (∀ item phase final, getPhase settings item (after settings calls) = .ok phase final →
      final.phase? item.key = some phase ∧
      ∃ other : DeclaredMethod artifact, other.owner = item.owner ∧ other.method.name = item.method.name ∧
        other.method.descriptor = item.method.descriptor ∧ other.DeclaresFirst settings phase) ∧
    ∀ topic key,
      (after settings calls).warnings.countP (fun warning => warning.topic? = some (topic, key)) ≤ 1 := by
  have advances : Advances settings .empty (after settings calls) := after_advances settings [] calls
  refine ⟨?_, ?_, ?_, ?_, advances.judged_once⟩
  · rw [advances.counted, messages, List.length_map]
  · intro more key phase found
    exact (after_advances settings calls more).kept found
  · intro key phase found
    obtain ⟨item, rfl, declares⟩ := advances.declared_of_empty found
    exact ⟨item, item.owner_name, rfl, rfl, declares⟩
  · intro item phase final ran
    obtain ⟨here, remembers⟩ := phaseOf_advances settings item (after settings calls)
    have answered : phaseOf settings item (after settings calls) = .ok phase final := ran
    rw [answered] at here remembers
    have found : final.phase? item.key = some phase := remembers phase rfl
    obtain ⟨other, same, declares⟩ := (advances.trans here).declared_of_empty found
    obtain ⟨_, sameName, sameDescriptor⟩ := MethodKey.mk.inj same
    exact ⟨found, other, DeclaredMethod.owner_eq_of_key same, sameName, sameDescriptor, declares⟩

def overridingKey : MethodKey := ⟨overridingName, methodName, "()V"⟩

theorem after_invariant_mismatch :
    ∃ item other : DeclaredMethod mismatchedArtifact,
      (after letterSettings [.verifyAll] : Verifier mismatchedArtifact).warningCount = 1 ∧
      (after letterSettings [.verifyAll] : Verifier mismatchedArtifact).messages.length = 1 ∧
      (after letterSettings [.verifyAll] : Verifier mismatchedArtifact).phase? overridingKey = some (some .flow) ∧
      (after letterSettings [.verifyAll, .verifyAll] : Verifier mismatchedArtifact).phase? overridingKey =
        some (some .flow) ∧
      item.owner.name = overridingName ∧ item.method.name = methodName ∧ item.method.descriptor = "()V" ∧
      item.DeclaresFirst letterSettings (some .flow) ∧
      other.owner = item.owner ∧ other.DeclaresFirst letterSettings (some .flow) ∧
      (after letterSettings [.verifyAll, .verifyAll] : Verifier mismatchedArtifact).warnings.countP
        (fun warning => warning.topic? = some (.overriding, overridingKey)) = 1 := by
  have checked : (after letterSettings [.verifyAll] : Verifier mismatchedArtifact).warningCount = 1 ∧
      (after letterSettings [.verifyAll] : Verifier mismatchedArtifact).phase? overridingKey = some (some .flow) ∧
      0 < (after letterSettings [.verifyAll, .verifyAll] : Verifier mismatchedArtifact).warnings.countP
        (fun warning => warning.topic? = some (.overriding, overridingKey)) := by decide +kernel
  obtain ⟨one, found, judged⟩ := checked
  obtain ⟨counted, stays, declared, answers, _⟩ :=
    after_invariant letterSettings ([.verifyAll] : List (Call mismatchedArtifact))
  obtain ⟨_, _, _, _, once⟩ :=
    after_invariant letterSettings ([.verifyAll, .verifyAll] : List (Call mismatchedArtifact))
  obtain ⟨item, owner, name, descriptor, declares⟩ := declared overridingKey (some .flow) found
  have key : item.key = overridingKey := by
    rw [DeclaredMethod.owner_name] at owner
    exact (MethodKey.mk.injEq ..).mpr ⟨owner, name, descriptor⟩
  have recalled : getPhase letterSettings item (after letterSettings [.verifyAll]) = .ok (some .flow) _ :=
    phaseOf_of_known (key ▸ found)
  obtain ⟨_, other, same, _, _, declaresOther⟩ := answers item (some .flow) _ recalled
  exact ⟨item, other, one, counted ▸ one, found, stays [.verifyAll] _ _ found, owner, name, descriptor, declares, same,
    declaresOther, Nat.le_antisymm (once .overriding overridingKey) judged⟩

end Verifier

end PhaseCheck
