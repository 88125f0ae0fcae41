import PhaseCheck.Proofs.Hierarchy.Assignability
import PhaseCheck.Proofs.Hierarchy.Transparency

set_option autoImplicit false

namespace PhaseCheck

open Relation (ReflTransGen)

theorem Access.has_eq_false_iff {owner : Flagged} (access : Access owner) {place : Nat} (inside : place < 16) :
    access.has ⟨BitVec.twoPow 16 place⟩ = false ↔ access.bits &&& ⟨BitVec.twoPow 16 place⟩ = 0 := by
  have positive : ∀ place < 16, (⟨BitVec.twoPow 16 place⟩ : UInt16) ≠ 0 := by decide
  have masked : access.bits &&& ⟨BitVec.twoPow 16 place⟩ =
      if access.bits.toBitVec.getLsbD place then ⟨BitVec.twoPow 16 place⟩ else 0 := by
    apply UInt16.toBitVec_inj.mp
    rw [UInt16.toBitVec_and, BitVec.and_twoPow]
    split <;> rfl
  rw [has, masked]
  split
  · simp [positive place inside]
  · simp [(positive place inside).symm]

namespace Method

/-- A method that can override another, or be overridden: it is no initializer, and neither static nor private. -/
def Virtual (method : Method) : Prop :=
  method.name.text ≠ "<init>" ∧ method.name.text ≠ "<clinit>" ∧ method.access.bits &&& 0x0008 = 0 ∧
    method.access.bits &&& 0x0002 = 0

instance (method : Method) : Decidable method.Virtual :=
  inferInstanceAs (Decidable (_ ∧ _))

theorem isVirtual_iff (method : Method) : method.isVirtual = true ↔ method.Virtual := by
  have static : method.access.isStatic = false ↔ method.access.bits &&& 0x0008 = 0 :=
    method.access.has_eq_false_iff (by decide : 3 < 16)
  have hidden : method.access.isPrivate = false ↔ method.access.bits &&& 0x0002 = 0 :=
    method.access.has_eq_false_iff (by decide : 1 < 16)
  simp only [isVirtual, MemberName.isInitializer, Bool.and_eq_true, Bool.not_eq_true', Bool.or_eq_false_iff,
    decide_eq_false_iff_not, static, hidden, Virtual, and_assoc, ne_eq]

theorem isVirtual_eq_false_iff (method : Method) : method.isVirtual = false ↔ ¬method.Virtual := by
  rw [← isVirtual_iff, Bool.not_eq_true]

/-- Name and parameters are the same, and the candidate is one that can be overridden. -/
def Overrides (method candidate : Method) : Prop :=
  candidate.Virtual ∧ candidate.name = method.name ∧ candidate.type.parameters = method.type.parameters

instance (method candidate : Method) : Decidable (method.Overrides candidate) :=
  inferInstanceAs (Decidable (_ ∧ _))

def Returns (method : Method) (name : ClassName) : Prop :=
  ∃ type ∈ method.type.result, type.innermost = .object name

end Method

def ClassFile.Offers (file : ClassFile) (method candidate : Method) : Prop :=
  candidate ∈ file.methods ∧ method.Overrides candidate

namespace LoadedClass

variable {artifact : Artifact} {loaded : LoadedClass artifact} {method : Method} {item : DeclaredMethod artifact}

theorem overridable_eq (loaded : LoadedClass artifact) (method : Method) :
    loaded.overridable method = loaded.methods.filter fun candidate => method.Overrides candidate.method := by
  apply List.filter_congr
  intro candidate _
  rw [Bool.eq_iff_iff, decide_eq_true_iff]
  simp [Method.Overrides, Method.hasSameSignature, Method.isVirtual_iff]

theorem mem_methods_iff : item ∈ loaded.methods ↔ item.owner = loaded := by
  constructor
  · exact mem_methods
  · rintro rfl
    exact List.mem_map.mpr ⟨⟨item.method, item.declared⟩, List.mem_attach .., rfl⟩

theorem mem_overridable_iff : item ∈ loaded.overridable method ↔ item.owner = loaded ∧ method.Overrides item.method := by
  rw [overridable_eq, List.mem_filter, mem_methods_iff, decide_eq_true_iff]

theorem offers_iff {candidate : Method} : loaded.file.Offers method candidate ↔
    ∃ item ∈ loaded.overridable method, item.method = candidate := by
  constructor
  · rintro ⟨declared, overrides⟩
    exact ⟨⟨loaded, candidate, declared⟩, mem_overridable_iff.mpr ⟨rfl, overrides⟩, rfl⟩
  · rintro ⟨item, listed, rfl⟩
    obtain ⟨rfl, overrides⟩ := mem_overridable_iff.mp listed
    exact ⟨item.declared, overrides⟩

theorem find?_of_overridable {others : List (DeclaredMethod artifact)}
    (candidates : loaded.overridable method = item :: others) :
    loaded.file.methods.find? (fun candidate => method.Overrides candidate) = some item.method := by
  have declared : loaded.file.methods = loaded.methods.map DeclaredMethod.method := by
    simp only [methods, List.map_map]
    exact loaded.file.methods.attach_map_subtype_val.symm
  have first : loaded.methods.find? (fun candidate => method.Overrides candidate.method) = some item := by
    rw [← List.head?_filter, ← overridable_eq, candidates]
    rfl
  rw [declared, List.find?_map]
  exact congrArg (Option.map DeclaredMethod.method) first

end LoadedClass

namespace Artifact

variable {artifact : Artifact} {libraries : List String} {method : Method}

-- What one method returns can stand for what another returns. Nothing can only stand for nothing.
inductive ResultAssignable (artifact : Artifact) (libraries : List String) :
    Option FieldType → Option FieldType → Prop where
  | nothing : ResultAssignable artifact libraries none none
  | value {sub super : FieldType} (assignable : artifact.Assignable libraries sub super) :
      ResultAssignable artifact libraries (some sub) (some super)

def MostGeneral (artifact : Artifact) (libraries : List String) (file : ClassFile) (method chosen : Method) : Prop :=
  ∀ other, file.Offers method other → artifact.ResultAssignable libraries other.type.result chosen.type.result

/-- What is overridden by a method, where these are the superclasses of its class. -/
structure Overridden (artifact : Artifact) (libraries : List String) (above : List (LoadedClass artifact))
    (method : Method) (chosen : DeclaredMethod artifact) : Prop where
  nearest : ∃ before after, above = before ++ chosen.owner :: after ∧
    ∀ loaded ∈ before, ∀ candidate, ¬loaded.file.Offers method candidate
  offered : chosen.owner.file.Offers method chosen.method
  general : (∃ candidate, chosen.owner.file.Offers method candidate ∧
      artifact.MostGeneral libraries chosen.owner.file method candidate) →
    artifact.MostGeneral libraries chosen.owner.file method chosen.method
  first : (¬∃ candidate, chosen.owner.file.Offers method candidate ∧
      artifact.MostGeneral libraries chosen.owner.file method candidate) →
    chosen.owner.file.methods.find? (fun candidate => method.Overrides candidate) = some chosen.method

theorem ResultAssignable.refl (result : Option FieldType) : artifact.ResultAssignable libraries result result := by
  cases result with
  | none => exact .nothing
  | some type => exact .value (.same type)

theorem Overridden.cons {loaded : LoadedClass artifact} {above : List (LoadedClass artifact)}
    {chosen : DeclaredMethod artifact} (nothing : ∀ candidate, ¬loaded.file.Offers method candidate)
    (overridden : artifact.Overridden libraries above method chosen) :
    artifact.Overridden libraries (loaded :: above) method chosen := by
  obtain ⟨before, after, rfl, skipped⟩ := overridden.nearest
  refine { overridden with nearest := ⟨loaded :: before, after, rfl, ?_⟩ }
  exact List.forall_mem_cons.mpr ⟨nothing, skipped⟩

end Artifact

namespace LoaderM

variable {artifact : Artifact} {libraries : List String} {origins : ClassName → Prop} {β : Type}
  {test : β → LoaderM artifact Bool} {holds : β → Prop}

theorem Decides.allM (items : List β) (each : ∀ item ∈ items, Decides libraries origins (test item) (holds item)) :
    Decides libraries origins (items.allM test) (∀ item ∈ items, holds item) := by
  induction items with
  | nil => exact .yes (by simp)
  | cons item rest ih =>
    obtain ⟨here, there⟩ := List.forall_mem_cons.mp each
    rw [List.allM_cons]
    apply Meets.andThen here
    intro found decided
    cases found with
    | false =>
      apply Decides.no
      intro all
      exact Bool.false_ne_true (decided.mpr (all item (List.mem_cons_self ..)))
    | true =>
      have first := decided.mp rfl
      exact (ih there).congr (by simp [first])

theorem Decides.findM? (items : List β) (each : ∀ item, Decides libraries origins (test item) (holds item)) :
    Meets libraries origins (items.findM? test) fun found =>
      (∀ item ∈ found, item ∈ items ∧ holds item) ∧ (found = none → ∀ item ∈ items, ¬holds item) := by
  induction items with
  | nil => exact .done (by simp)
  | cons item rest ih =>
    rw [List.findM?]
    apply Meets.andThen (each item)
    intro found decided
    cases found with
    | true => exact .done (by simp [decided.mp rfl])
    | false =>
      have refuted : ¬holds item := fun proved => Bool.false_ne_true (decided.mpr proved)
      apply ih.mono
      rintro found ⟨right, missed⟩
      refine ⟨fun other chosen => ?_, fun nothing => List.forall_mem_cons.mpr ⟨refuted, missed nothing⟩⟩
      obtain ⟨later, proved⟩ := right other chosen
      exact ⟨List.mem_cons_of_mem _ later, proved⟩

end LoaderM

namespace Loader

open LoaderM (Decides Meets)

variable {artifact : Artifact}

theorem isResultAssignable_meets (libraries : List String) (sub super : Option FieldType) :
    Decides libraries (fun name => ∃ type ∈ sub, type.innermost = .object name)
      (isResultAssignable libraries sub super : LoaderM artifact Bool)
      (artifact.ResultAssignable libraries sub super) := by
  cases sub with
  | none =>
    cases super with
    | none => exact .yes .nothing
    | some super => exact .no nofun
  | some sub =>
    cases super with
    | none => exact .no nofun
    | some super =>
      apply ((isAssignable_meets libraries sub super).congr _).widen
      · exact fun name named => ⟨sub, rfl, named⟩
      · exact ⟨.value, fun result => by cases result; assumption⟩

-- As `MostGeneral`, among some candidates.
def Leads (libraries : List String) (candidates : List (DeclaredMethod artifact)) (item : DeclaredMethod artifact) :
    Prop :=
  ∀ other ∈ candidates, artifact.ResultAssignable libraries other.method.type.result item.method.type.result

theorem isMostGeneral_meets (libraries : List String) (candidates : List (DeclaredMethod artifact))
    (item : DeclaredMethod artifact) :
    Decides libraries (fun name => ∃ other ∈ candidates, other.method.Returns name)
      (isMostGeneral libraries candidates item) (Leads libraries candidates item) :=
  Decides.allM candidates fun other present =>
    (isResultAssignable_meets libraries _ _).widen fun _ returned => ⟨other, present, returned⟩

theorem mostGeneral_meets (libraries : List String) (first : DeclaredMethod artifact)
    (others : List (DeclaredMethod artifact)) :
    Meets libraries (fun name => ∃ other ∈ first :: others, other.method.Returns name)
      (mostGeneral libraries first others) fun chosen =>
      chosen ∈ first :: others ∧
      ((∃ item ∈ first :: others, Leads libraries (first :: others) item) → Leads libraries (first :: others) chosen) ∧
      ((∀ item ∈ first :: others, ¬Leads libraries (first :: others) item) → chosen = first) := by
  unfold mostGeneral
  cases others with
  | nil =>
    -- A single candidate is not even compared with itself.
    have leads : Leads libraries [first] first := by
      simpa [Leads] using Artifact.ResultAssignable.refl _
    exact .done ⟨List.mem_singleton_self _, fun _ => leads, fun _ => rfl⟩
  | cons other rest =>
    apply (Decides.findM? _ (isMostGeneral_meets libraries (first :: other :: rest))).andThen
    rintro found ⟨right, missed⟩
    apply Meets.done
    cases found with
    | none =>
      refine ⟨List.mem_cons_self .., ?_, fun _ => rfl⟩
      rintro ⟨item, listed, leads⟩
      exact absurd leads (missed rfl item listed)
    | some chosen =>
      obtain ⟨listed, leads⟩ := right chosen rfl
      exact ⟨listed, fun _ => leads, fun nothing => absurd leads (nothing chosen listed)⟩

section

variable {libraries : List String} {loaded : LoadedClass artifact} {method : Method}
  {candidates : List (DeclaredMethod artifact)}

theorem leads_iff (listed : ∀ item, item ∈ candidates ↔ item ∈ loaded.overridable method)
    {item : DeclaredMethod artifact} :
    Leads libraries candidates item ↔ artifact.MostGeneral libraries loaded.file method item.method := by
  constructor
  · intro leads other offered
    obtain ⟨candidate, present, rfl⟩ := LoadedClass.offers_iff.mp offered
    exact leads candidate ((listed candidate).mpr present)
  · intro general other present
    exact general other.method (LoadedClass.offers_iff.mpr ⟨other, (listed other).mp present, rfl⟩)

theorem exists_leads_iff (listed : ∀ item, item ∈ candidates ↔ item ∈ loaded.overridable method) :
    (∃ item ∈ candidates, Leads libraries candidates item) ↔
      ∃ candidate, loaded.file.Offers method candidate ∧
        artifact.MostGeneral libraries loaded.file method candidate := by
  constructor
  · rintro ⟨item, present, leads⟩
    exact ⟨item.method, LoadedClass.offers_iff.mpr ⟨item, (listed item).mp present, rfl⟩, (leads_iff listed).mp leads⟩
  · rintro ⟨candidate, offered, general⟩
    obtain ⟨item, present, rfl⟩ := LoadedClass.offers_iff.mp offered
    exact ⟨item, (listed item).mpr present, (leads_iff listed).mpr general⟩

theorem nearestOverridden_meets (libraries : List String) (method : Method) (above : List (LoadedClass artifact)) :
    Meets libraries
      (fun name => ∃ loaded ∈ above, ∃ candidate, loaded.file.Offers method candidate ∧ candidate.Returns name)
      (nearestOverridden libraries method above) fun found =>
      (found = none ↔ ∀ loaded ∈ above, ∀ candidate, ¬loaded.file.Offers method candidate) ∧
      ∀ chosen ∈ found, artifact.Overridden libraries above method chosen := by
  induction above with
  | nil => exact .done (by simp)
  | cons loaded rest ih =>
    unfold nearestOverridden
    split
    next none =>
      have nothing : ∀ candidate, ¬loaded.file.Offers method candidate := by
        intro candidate offered
        obtain ⟨item, present, _⟩ := LoadedClass.offers_iff.mp offered
        rw [none] at present
        exact absurd present List.not_mem_nil
      refine (ih.widen fun name => ?_).mono ?_
      · rintro ⟨further, present, offers⟩
        exact ⟨further, List.mem_cons_of_mem _ present, offers⟩
      · rintro found ⟨missing, right⟩
        refine ⟨?_, fun chosen present => (right chosen present).cons nothing⟩
        rw [missing, List.forall_mem_cons, and_iff_right nothing]
    next first others candidates =>
      -- Something is offered here, so the classes further up do not matter.
      have listed (item : DeclaredMethod artifact) : item ∈ first :: others ↔ item ∈ loaded.overridable method := by
        rw [candidates]
      refine ((mostGeneral_meets libraries first others).widen ?_).andThen ?_
      · rintro name ⟨item, present, returns⟩
        have offered := LoadedClass.offers_iff.mpr ⟨item, (listed item).mp present, rfl⟩
        exact ⟨loaded, List.mem_cons_self .., item.method, offered, returns⟩
      rintro chosen ⟨present, general, fallback⟩
      rw [exists_leads_iff listed, leads_iff listed] at general
      obtain ⟨rfl, overrides⟩ := LoadedClass.mem_overridable_iff.mp ((listed chosen).mp present)
      have offered : chosen.owner.file.Offers method chosen.method := ⟨chosen.declared, overrides⟩
      apply Meets.done
      constructor
      · simp only [reduceCtorEq, false_iff]
        intro all
        exact all chosen.owner (List.mem_cons_self ..) chosen.method offered
      · rintro _ ⟨⟩
        refine ⟨⟨[], rest, rfl, by simp⟩, offered, general, fun none => ?_⟩
        rw [← exists_leads_iff listed] at none
        have same := fallback fun item among leads => none ⟨item, among, leads⟩
        rw [LoadedClass.find?_of_overridable candidates, same]

end

theorem findOverriddenOf_of_fixed {method : Method} (fixed : method.isVirtual = false) (libraries : List String)
    (file : ClassFile) :
    (findOverriddenOf libraries file method : LoaderM artifact (Option (DeclaredMethod artifact))) = pure none := by
  simp only [findOverriddenOf, fixed]
  rfl

theorem findOverriddenOf_of_virtual {method : Method} (virtual : method.isVirtual = true) (libraries : List String)
    (file : ClassFile) :
    (findOverriddenOf libraries file method : LoaderM artifact (Option (DeclaredMethod artifact))) =
      superclassesOf libraries file >>= nearestOverridden libraries method := by
  simp only [findOverriddenOf, virtual, if_true]

/-- What a method overrides is found in its superclasses unless one of these, or a class above the result of a method
that one of these offers, does not load. It is nothing if the method is not virtual or if no superclass has anything to
override; and the order in which candidates are declared matters only if none of them is the most general one. -/
theorem findOverriddenOf_nearest (artifact : Artifact) (libraries : List String) (loader : Loader artifact)
    (file : ClassFile) (method : Method) :
    (∀ item : DeclaredMethod artifact,
      findOverridden libraries item = findOverriddenOf libraries item.owner.file item.method) ∧
    (¬method.Virtual → answerOf (findOverriddenOf libraries file method loader) = .ok none) ∧
    (∀ above, answerOf (superclassesOf libraries file loader) = .ok above →
      (∀ found, answerOf (findOverriddenOf libraries file method loader) = .ok found →
        (found = none ↔ ¬method.Virtual ∨
          ∀ loaded ∈ above, ∀ candidate, ¬loaded.file.Offers method candidate) ∧
        ∀ chosen ∈ found, artifact.Overridden libraries above method chosen) ∧
      ∀ cause, answerOf (findOverriddenOf libraries file method loader) = .error cause →
        ∃ origin name, (∃ loaded ∈ above, ∃ candidate, loaded.file.Offers method candidate ∧ candidate.Returns origin) ∧
          ReflTransGen (artifact.Extends libraries) origin name ∧ artifact.Broken libraries name cause) ∧
    (∀ cause, method.Virtual → answerOf (superclassesOf libraries file loader) = .error cause →
      answerOf (findOverriddenOf libraries file method loader) = .error cause) ∧
    ∀ (loaded : LoadedClass artifact) (first : DeclaredMethod artifact) (others : List (DeclaredMethod artifact)),
      (first :: others).Perm (loaded.overridable method) → ∀ chosen,
        answerOf (mostGeneral libraries first others loader) = .ok chosen →
        (∃ candidate, loaded.file.Offers method candidate ∧
          artifact.MostGeneral libraries loaded.file method candidate) →
        artifact.MostGeneral libraries loaded.file method chosen.method := by
  refine ⟨fun item => rfl, ?_, ?_, ?_, ?_⟩
  · intro fixed
    rw [findOverriddenOf_of_fixed (method.isVirtual_eq_false_iff.mpr fixed)]
    rfl
  · intro above climbed
    rw [← method.isVirtual_eq_false_iff]
    cases virtual : method.isVirtual with
    | false =>
      rw [findOverriddenOf_of_fixed virtual]
      refine ⟨?_, nofun⟩
      rintro found ⟨⟩
      simp
    | true =>
      obtain ⟨middle, ran⟩ := ok_of_answer climbed
      have meets := nearestOverridden_meets libraries method above
      rw [findOverriddenOf_of_virtual virtual, bind_of_ok ran]
      refine ⟨fun found answered => ?_, fun cause answered => meets.broken answered⟩
      simpa using meets.right answered
  · intro cause virtual failed
    obtain ⟨middle, ran⟩ := error_of_answer failed
    rw [findOverriddenOf_of_virtual (method.isVirtual_iff.mpr virtual), bind_of_error ran]
    rfl
  · intro loaded first others reordered chosen answered some
    have listed (item : DeclaredMethod artifact) : item ∈ first :: others ↔ item ∈ loaded.overridable method :=
      reordered.mem_iff
    obtain ⟨_, general, _⟩ := (mostGeneral_meets libraries first others).right answered
    rw [exists_leads_iff listed, leads_iff listed] at general
    exact general some

end Loader

end PhaseCheck
