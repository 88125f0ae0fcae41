import PhaseCheck.Proofs.Code.Calls
import PhaseCheck.Proofs.Verifier.Completion
import PhaseCheck.Proofs.Verifier.Histories

set_option autoImplicit false

namespace PhaseCheck

def Warning.sides? : Warning → Option ((MethodKey × Phase) × MethodKey × Phase)
  | .callMismatch caller phase callee calleePhase => some ((caller, phase), callee, calleePhase)
  | .overrideMismatch method phase overridden overriddenPhase => some ((method, phase), overridden, overriddenPhase)
  | _ => none

def Warning.call? : Warning → Option (MethodKey × MethodKey)
  | .callMismatch caller _ callee _ => some (caller, callee)
  | _ => none

theorem Warning.call?_of_plain {warning : Warning} (plain : warning.sides? = none) : warning.call? = none := by
  cases warning with
  | callMismatch => cases plain
  | _ => rfl

def clashes (key other : MethodKey) : Option Phase → Option Phase → List ((MethodKey × Phase) × MethodKey × Phase)
  | some phase, some otherPhase => if phase = otherPhase then [] else [((key, phase), other, otherPhase)]
  | _, _ => []

theorem mem_clashes {key other : MethodKey} {phase otherPhase : Option Phase} {first second : MethodKey × Phase} :
    (first, second) ∈ clashes key other phase otherPhase ↔
      first.1 = key ∧ second.1 = other ∧ phase = some first.2 ∧ otherPhase = some second.2 ∧ first.2 ≠ second.2 := by
  unfold clashes
  split
  next phase otherPhase =>
    split
    next same =>
      simp only [List.not_mem_nil, Option.some.injEq, false_iff]
      rintro ⟨_, _, rfl, rfl, apart⟩
      exact apart same
    next apart =>
      rw [List.mem_singleton]
      constructor
      · rintro ⟨⟩
        exact ⟨rfl, rfl, rfl, rfl, apart⟩
      · rintro ⟨rfl, rfl, ⟨⟩, ⟨⟩, _⟩
        rfl
  next unphased =>
    simp only [List.not_mem_nil, false_iff]
    rintro ⟨_, _, rfl, rfl, _⟩
    exact unphased _ _ rfl rfl

theorem sides_overrideWarnings (key overridden : MethodKey) (phase other : Option Phase) :
    (Verifier.overrideWarnings key phase overridden other).filterMap Warning.sides? =
      clashes key overridden phase other := by
  cases phase with
  | none => rfl
  | some phase =>
    cases other with
    | none => rfl
    | some other =>
      by_cases same : phase = other <;> simp [Verifier.overrideWarnings, clashes, Warning.sides?, same]

theorem sides_mismatches (caller callee : MethodKey) (phase : Phase) (found : Option Phase) :
    (DeclaredMethod.mismatches caller phase callee found).filterMap Warning.sides? =
      clashes caller callee (some phase) found := by
  cases found with
  | none => rfl
  | some other => by_cases same : phase = other <;> simp [DeclaredMethod.mismatches, clashes, Warning.sides?, same, eq_comm]

namespace DeclaredMethod

variable {artifact : Artifact}

/-- Methods whose phases have to agree: one overrides or calls the other. -/
inductive Bound (settings : Settings) (item other : DeclaredMethod artifact) : Prop where
  | overrides (found : item.overridden settings = .ok (some other))
  | calls {callees : List (DeclaredMethod artifact)} (found : item.callees settings = .ok callees)
      (called : other ∈ callees)

def calls (settings : Settings) (item : DeclaredMethod artifact) : List (MethodKey × MethodKey) :=
  match item.callees settings with
  | .ok callees => callees.map fun callee => (item.key, callee.key)
  | .error _ => []

end DeclaredMethod

namespace Verifier

variable {artifact : Artifact} {settings : Settings}

-- If a warning sets two methods against each other, then they are bound, and their phases are remembered and differ.
def Justified (settings : Settings) (verifier : Verifier artifact) (warning : Warning) : Prop :=
  ∀ ⦃first second⦄, warning.sides? = some (first, second) → first.2 ≠ second.2 ∧
    verifier.phase? first.1 = some (some first.2) ∧ verifier.phase? second.1 = some (some second.2) ∧
    ∃ item other : DeclaredMethod artifact, item.key = first.1 ∧ other.key = second.1 ∧ item.Bound settings other

theorem Justified.plain {verifier : Verifier artifact} {warning : Warning} (alone : warning.sides? = none) :
    Justified settings verifier warning := by
  intro first second sides
  rw [alone] at sides
  cases sides

theorem Justified.later {before after : Verifier artifact} {warning : Warning}
    (justified : Justified settings before warning) (knows : after.Knows before) :
    Justified settings after warning := by
  intro first second sides
  obtain ⟨apart, known, knownOther, bound⟩ := justified sides
  exact ⟨apart, knows known, knows knownOther, bound⟩

-- What is said from one verifier to a later one is justified in the end, and each of some calls is warned about at
-- most once, and no other call.
structure Speaks (settings : Settings) (calls : List (MethodKey × MethodKey)) (before after : Verifier artifact) :
    Prop where
  knows : after.Knows before
  said : ∃ said, after.warnings = before.warnings ++ said ∧ (∀ warning ∈ said, Justified settings after warning) ∧
    (said.filterMap Warning.call?).Sublist calls

namespace Speaks

variable {calls more : List (MethodKey × MethodKey)} {before middle after : Verifier artifact}

theorem silent (phases : after.phases = before.phases) (warnings : after.warnings = before.warnings) :
    Speaks settings [] before after where
  knows := .of_phases phases
  said := ⟨[], by simpa using warnings, by simp, by simp⟩

theorem refl (verifier : Verifier artifact) : Speaks settings [] verifier verifier :=
  silent rfl rfl

theorem trans (first : Speaks settings calls before middle) (second : Speaks settings more middle after) :
    Speaks settings (calls ++ more) before after where
  knows key phase known := second.knows (first.knows known)
  said := by
    obtain ⟨said, warnings, justified, listed⟩ := first.said
    obtain ⟨later, laterWarnings, laterJustified, laterListed⟩ := second.said
    refine ⟨said ++ later, ?_, ?_, ?_⟩
    · rw [laterWarnings, warnings, List.append_assoc]
    · intro warning present
      rcases List.mem_append.mp present with here | there
      · exact (justified warning here).later second.knows
      · exact laterJustified warning there
    · rw [List.filterMap_append]
      exact listed.append laterListed

theorem widen (speaks : Speaks settings calls before after) (wider : calls.Sublist more) :
    Speaks settings more before after := by
  obtain ⟨knows, said, warnings, justified, listed⟩ := speaks
  exact ⟨knows, said, warnings, justified, listed.trans wider⟩

theorem warnAll {warnings : List Warning} (justified : ∀ warning ∈ warnings, Justified settings before warning)
    (listed : (warnings.filterMap Warning.call?).Sublist calls) :
    Speaks settings calls before (before.warnAll warnings) where
  knows := .of_phases (warnAll_phases ..)
  said := by
    refine ⟨warnings, warnAll_warnings .., fun warning present => ?_, listed⟩
    exact (justified warning present).later (.of_phases (warnAll_phases ..))

theorem plainly {warnings : List Warning} (plain : ∀ warning ∈ warnings, warning.sides? = none) :
    Speaks settings [] before (before.warnAll warnings) := by
  refine .warnAll (fun warning present => .plain (plain warning present)) ?_
  have uncalled : warnings.filterMap Warning.call? = [] :=
    List.filterMap_eq_nil_iff.mpr fun warning present => Warning.call?_of_plain (plain warning present)
  rw [uncalled]

theorem settle {key : MethodKey} (unknown : before.phase? key = none) (declaration : Declaration) :
    Speaks settings [] before (before.settle key declaration) where
  knows := .settle unknown declaration
  said := by
    refine ⟨_, settle_warnings .., ?_, ?_⟩
    · intro warning present
      refine .plain ?_
      split at present
      next => rw [List.mem_singleton.mp present]; rfl
      next => cases present
    · split <;> simp [Warning.call?]

theorem onward : Onward fun before after : Verifier artifact => ∃ calls, Speaks settings calls before after where
  refl verifier := ⟨[], .refl verifier⟩
  trans := by
    rintro before middle after ⟨calls, first⟩ ⟨more, second⟩
    exact ⟨calls ++ more, first.trans second⟩
  loading verifier loader _ := ⟨[], .silent rfl rfl⟩

end Speaks

theorem justified_of_clashes {verifier : Verifier artifact} {item other : DeclaredMethod artifact}
    {phase otherPhase : Option Phase} {warnings : List Warning} (bound : item.Bound settings other)
    (known : verifier.phase? item.key = some phase) (knownOther : verifier.phase? other.key = some otherPhase)
    (sides : warnings.filterMap Warning.sides? = clashes item.key other.key phase otherPhase) :
    ∀ warning ∈ warnings, Justified settings verifier warning := by
  intro warning given first second found
  have clash : (first, second) ∈ warnings.filterMap Warning.sides? := List.mem_filterMap.mpr ⟨warning, given, found⟩
  rw [sides] at clash
  obtain ⟨key, otherKey, rfl, rfl, apart⟩ := mem_clashes.mp clash
  rw [key, otherKey]
  exact ⟨apart, known, knownOther, item, other, rfl, rfl, bound⟩

theorem call?_overrideWarnings (key overridden : MethodKey) (phase other : Option Phase) :
    (overrideWarnings key phase overridden other).filterMap Warning.call? = [] := by
  unfold overrideWarnings
  split
  · split <;> simp [Warning.call?]
  · rfl

theorem phaseOf_speaks (settings : Settings) (item : DeclaredMethod artifact) (verifier : Verifier artifact) :
    Speaks settings [] verifier (stateOf (phaseOf settings item verifier)) := by
  cases unknown : verifier.phase? item.key with
  | some phase =>
    rw [phaseOf_of_known unknown]
    exact .refl verifier
  | none =>
    rw [phaseOf_of_unknown unknown]
    cases declared : item.declaration settings with
    | error cause => exact .refl verifier
    | ok declaration =>
      have settled : Speaks settings [] verifier (verifier.settle item.key declaration) := .settle unknown declaration
      have steady : LoaderM.Steady [] (Loader.findOverridden settings.libraries item) _ :=
        Loader.findOverridden_steady settings.libraries item
      simp only
      cases found : Loader.findOverridden settings.libraries item (verifier.settle item.key declaration).loader with
      | error cause loader => exact settled.trans (.silent rfl rfl)
      | ok overridden loader =>
        cases overridden with
        | none =>
          have searched : Speaks settings [] verifier { verifier.settle item.key declaration with loader } :=
            settled.trans (.silent rfl rfl)
          refine searched.trans (.plainly fun warning present => ?_)
          split at present
          next => rw [List.mem_singleton.mp present]; rfl
          next => cases present
        | some above =>
          have noted : Speaks settings [] verifier
              ({ verifier.settle item.key declaration with loader }.note (.overrides item.key above.key)) :=
            settled.trans (.silent rfl rfl)
          have next := phaseOf_speaks settings above
            ({ verifier.settle item.key declaration with loader }.note (.overrides item.key above.key))
          have remembers := (phaseOf_advances settings above
            ({ verifier.settle item.key declaration with loader }.note (.overrides item.key above.key))).2
          simp only
          cases ran : phaseOf settings above
            ({ verifier.settle item.key declaration with loader }.note (.overrides item.key above.key)) with
          | error cause last =>
            rw [ran] at next
            exact noted.trans next
          | ok phase last =>
            rw [ran] at next remembers
            -- The phase has been settled before the methods above are looked at, and it is not forgotten.
            have known : (verifier.settle item.key declaration).phase? item.key = some declaration.phase := by
              rw [phase?_settle, if_pos rfl]
            refine (noted.trans next).trans (.warnAll ?_ (by rw [call?_overrideWarnings]))
            exact justified_of_clashes (.overrides (steady.fresh_eq found)) (next.knows known) (remembers phase rfl)
              (sides_overrideWarnings ..)
termination_by unvisited artifact.methodKeys verifier.settled
decreasing_by exact unvisited_cons_lt item.key_mem (not_mem_settled unknown)

theorem getPhase_speaks (settings : Settings) (item : DeclaredMethod artifact) (verifier : Verifier artifact) :
    Speaks settings [] verifier (stateOf (getPhase settings item verifier)) ∧
      ∀ phase, answerOf (getPhase settings item verifier) = .ok phase →
        (stateOf (getPhase settings item verifier)).phase? item.key = some phase :=
  ⟨phaseOf_speaks settings item verifier, (phaseOf_advances settings item verifier).2⟩

theorem call?_mismatches (caller callee : MethodKey) (phase : Phase) (found : Option Phase) :
    ((DeclaredMethod.mismatches caller phase callee found).filterMap Warning.call?).Sublist [(caller, callee)] := by
  unfold DeclaredMethod.mismatches
  split
  · split <;> simp [Warning.call?]
  · simp

section

variable {item : DeclaredMethod artifact} {callees : List (DeclaredMethod artifact)} {phase : Phase}
  (calls : item.callees settings = .ok callees)

include calls

theorem verifyCall_speaks {callee : DeclaredMethod artifact} (called : callee ∈ callees) {verifier : Verifier artifact}
    (known : verifier.phase? item.key = some (some phase)) :
    Speaks settings [(item.key, callee.key)] verifier
      (stateOf (verifyCall settings item.key phase callee verifier)) := by
  obtain ⟨speaks, remembers⟩ := getPhase_speaks settings callee verifier
  cases finding : getPhase settings callee verifier with
  | error cause middle =>
    rw [finding] at speaks
    rw [verifyCall, bind_of_error finding]
    exact speaks.widen (List.nil_sublist _)
  | ok found middle =>
    rw [finding] at speaks remembers
    rw [verifyCall_of_ok finding]
    refine speaks.trans (.warnAll ?_ (call?_mismatches ..))
    exact justified_of_clashes (.calls calls called) (speaks.knows known) (remembers found rfl) (sides_mismatches ..)

theorem verifyCalls_speak {some : List (DeclaredMethod artifact)} (among : some ⊆ callees) {verifier : Verifier artifact}
    (known : verifier.phase? item.key = .some (.some phase)) :
    Speaks settings (some.map fun callee => (item.key, callee.key)) verifier
      (stateOf (some.forM (verifyCall settings item.key phase) verifier)) := by
  induction some generalizing verifier with
  | nil => exact .refl verifier
  | cons callee rest ih =>
    obtain ⟨called, among⟩ := List.cons_subset.mp among
    have here := verifyCall_speaks calls called known
    cases ran : verifyCall settings item.key phase callee verifier with
    | error cause middle =>
      rw [ran] at here
      rw [List.forM, bind_of_error ran]
      exact here.widen (List.singleton_sublist.mpr (List.mem_cons_self ..))
    | ok _ middle =>
      rw [ran] at here
      rw [List.forM, bind_of_ok ran]
      exact here.trans (ih among (here.knows known))

end

theorem verify_speaks (settings : Settings) (item : DeclaredMethod artifact) (verifier : Verifier artifact) :
    Speaks settings (item.calls settings) verifier (stateOf (verify settings item verifier)) := by
  obtain ⟨speaks, remembers⟩ := getPhase_speaks settings item verifier
  cases finding : getPhase settings item verifier with
  | error cause middle =>
    rw [finding] at speaks
    rw [verify, bind_of_error finding]
    exact speaks.widen (List.nil_sublist _)
  | ok found middle =>
    rw [finding] at speaks remembers
    rw [verify, bind_of_ok finding]
    cases found with
    | none =>
      have plain : Speaks settings [] middle (middle.warnAll [.noPhase item.key]) := .plainly (by simp [Warning.sides?])
      exact (speaks.trans plain).widen (List.nil_sublist _)
    | some phase =>
      have steady : LoaderM.Steady [] (Loader.callees settings item) _ := Loader.callees_steady settings item
      have resolved (loader : Loader artifact) : Speaks settings [] verifier { middle with loader } :=
        speaks.trans (.silent rfl rfl)
      simp only
      cases resolving : Loader.callees settings item middle.loader with
      | error cause loader =>
        rw [bind_of_error (lift_of_error resolving)]
        exact (resolved loader).widen (List.nil_sublist _)
      | ok callees loader =>
        have calls : item.callees settings = .ok callees := steady.fresh_eq resolving
        rw [bind_of_ok (lift_of_ok resolving), DeclaredMethod.calls, calls]
        exact (resolved loader).trans (verifyCalls_speak calls (List.Subset.refl _) (remembers (some phase) rfl))

theorem after_justified (settings : Settings) (calls : List (Call artifact)) :
    ∀ warning ∈ (after settings calls).warnings, Justified settings (after settings calls) warning := by
  obtain ⟨_, speaks⟩ := after_along Speaks.onward (fun item verifier => ⟨_, phaseOf_speaks settings item verifier⟩)
    (fun item verifier => ⟨_, verify_speaks settings item verifier⟩) [] calls
  obtain ⟨said, warnings, justified, _⟩ := speaks.said
  have all : (after settings calls).warnings = said := warnings
  rw [all]
  exact justified

end Verifier

namespace DeclaredMethod

variable {artifact : Artifact} {settings : Settings} {item : DeclaredMethod artifact}

structure Clash (settings : Settings) (item other : DeclaredMethod artifact) (first second : MethodKey × Phase) :
    Prop where
  key : item.key = first.1
  phase : item.phase settings = .ok (some first.2)
  otherKey : other.key = second.1
  otherPhase : other.phase settings = .ok (some second.2)
  apart : first.2 ≠ second.2

theorem clash_iff {other : DeclaredMethod artifact} {phase otherPhase : Option Phase}
    (phased : item.phase settings = .ok phase) (otherPhased : other.phase settings = .ok otherPhase)
    {first second : MethodKey × Phase} :
    (first, second) ∈ clashes item.key other.key phase otherPhase ↔ item.Clash settings other first second := by
  rw [mem_clashes]
  constructor
  · rintro ⟨key, otherKey, rfl, rfl, apart⟩
    exact ⟨key.symm, phased, otherKey.symm, otherPhased, apart⟩
  · rintro ⟨key, samePhase, otherKey, sameOther, apart⟩
    rw [phased] at samePhase
    rw [otherPhased] at sameOther
    exact ⟨key.symm, otherKey.symm, Except.ok.inj samePhase, Except.ok.inj sameOther, apart⟩

theorem listedWarnings_clash {said : List Warning} (told : item.listedWarnings settings = .ok said)
    {first second : MethodKey × Phase} :
    (first, second) ∈ said.filterMap Warning.sides? ↔
      ∃ callees, item.callees settings = .ok callees ∧ ∃ callee ∈ callees, item.Clash settings callee first second := by
  obtain ⟨found, phased, told⟩ := values_of_bind_ok told
  cases found with
  | none =>
    cases told
    constructor
    · simp [Warning.sides?]
    · rintro ⟨_, _, _, _, clash⟩
      rw [clash.phase] at phased
      cases phased
  | some phase =>
    obtain ⟨callees, calls, told⟩ := values_of_bind_ok told
    rw [mem_filterMap_tellEach told]
    constructor
    · rintro ⟨callee, called, one, tells, set⟩
      obtain ⟨found, calleePhased, tells⟩ := values_of_bind_ok tells
      cases tells
      rw [sides_mismatches, clash_iff phased calleePhased] at set
      exact ⟨callees, calls, callee, called, set⟩
    · rintro ⟨others, same, callee, called, clash⟩
      rw [calls] at same
      cases same
      refine ⟨callee, called, mismatches item.key phase callee.key (some second.2), ?_, ?_⟩
      · rw [callWarnings, clash.otherPhase]
        rfl
      · rw [sides_mismatches, clash_iff phased clash.otherPhase]
        exact clash

theorem ownWarnings_clash {own : List Warning} (told : item.ownWarnings settings = .ok own)
    {first second : MethodKey × Phase} :
    (first, second) ∈ own.filterMap Warning.sides? ↔
      ∃ above, item.overridden settings = .ok (some above) ∧ item.Clash settings above first second := by
  obtain ⟨declaration, declared, rest⟩ := values_of_bind_ok told
  obtain ⟨overridden, overrides, rest⟩ := values_of_bind_ok rest
  have several : (if 1 < declaration.phases.length then [Warning.severalPhases item.key declaration.phases]
      else []).filterMap Warning.sides? = [] := by split <;> simp [Warning.sides?]
  cases overridden with
  | none =>
    rw [Verifier.ownWarnings_of_none declared overrides] at told
    cases told
    have alone : (if declaration.marked then [Warning.nothingOverridden item.key]
        else []).filterMap Warning.sides? = [] := by split <;> simp [Warning.sides?]
    rw [List.filterMap_append, several, alone]
    simp [overrides]
  | some above =>
    obtain ⟨found, phased, _⟩ := values_of_bind_ok rest
    rw [Verifier.ownWarnings_of_some declared overrides phased] at told
    cases told
    rw [List.filterMap_append, several, List.nil_append, sides_overrideWarnings,
      clash_iff (Verifier.phase_of_declaration declared) phased]
    simp [overrides]

end DeclaredMethod

/-- Methods that are compared when everything is checked: each that is reached, with the one that it overrides, and each
that is listed, with those that it calls. -/
inductive Compared {artifact : Artifact} (settings : Settings) (listed : List (DeclaredMethod artifact))
    (item other : DeclaredMethod artifact) : Prop where
  | overriding (reached : Reached settings listed item) (overrides : item.overridden settings = .ok (some other))
  | calling {callees : List (DeclaredMethod artifact)} (present : item ∈ listed)
      (calls : item.callees settings = .ok callees) (called : other ∈ callees)

theorem Reports.clash_iff {artifact : Artifact} {settings : Settings} {listed : List (DeclaredMethod artifact)}
    {warnings : List Warning} (reports : Reports settings listed warnings) {first second : MethodKey × Phase} :
    (first, second) ∈ warnings.filterMap Warning.sides? ↔
      ∃ item other, Compared settings listed item other ∧ item.Clash settings other first second := by
  obtain ⟨reached, forListed, own, _, all, told, judged, same⟩ := reports
  rw [(same.filterMap _).mem_iff, List.filterMap_append, List.mem_append, mem_filterMap_tellEach told,
    mem_filterMap_tellEach judged]
  constructor
  · rintro (⟨item, present, one, tells, set⟩ | ⟨item, present, one, tells, set⟩)
    · obtain ⟨callees, calls, callee, called, clash⟩ := (DeclaredMethod.listedWarnings_clash tells).mp set
      exact ⟨item, callee, .calling present calls called, clash⟩
    · obtain ⟨above, overrides, clash⟩ := (DeclaredMethod.ownWarnings_clash tells).mp set
      exact ⟨item, above, .overriding ((all item).mp present) overrides, clash⟩
  · rintro ⟨item, other, ⟨within, overrides⟩ | ⟨present, calls, called⟩, clash⟩
    · right
      obtain ⟨one, tells⟩ := told_of_tellEach judged ((all item).mpr within)
      have set := (DeclaredMethod.ownWarnings_clash tells).mpr ⟨other, overrides, clash⟩
      exact ⟨item, (all item).mpr within, one, tells, set⟩
    · left
      obtain ⟨one, tells⟩ := told_of_tellEach told present
      have set := (DeclaredMethod.listedWarnings_clash tells).mpr ⟨_, calls, other, called, clash⟩
      exact ⟨item, present, one, tells, set⟩

namespace Verifier

variable {artifact : Artifact}

/-- Ignored methods are compared like all others. Whatever a verifier was asked, a warning that sets two methods against
each other is about one that overrides or calls the other, and tells different phases that are declared for the two. So an
ignored method is only set against one that is not ignored. When everything has been checked, no ignored method is set
against another just in case all methods that are compared are both ignored or both not. -/
theorem ignored_compared (settings : Settings) :
    (∀ calls, ∀ warning ∈ (after settings calls : Verifier artifact).warnings, ∀ first second,
      warning.sides? = some (first, second) → first.2 ≠ second.2 ∧
      (∃ item other : DeclaredMethod artifact, item.key = first.1 ∧ other.key = second.1 ∧ item.Bound settings other) ∧
      (∃ item : DeclaredMethod artifact, item.key = first.1 ∧ item.DeclaresFirst settings (some first.2)) ∧
      ∃ other : DeclaredMethod artifact, other.key = second.1 ∧ other.DeclaresFirst settings (some second.2)) ∧
    ∀ count (final : Verifier artifact), verifyAll settings .empty = .ok count final →
      (∀ loaded ∈ final.loader.classes, loaded.MethodsDistinct) →
      ∃ listed, artifact.listed = .ok listed ∧
        ((∀ warning ∈ final.warnings, ∀ first second, warning.sides? = some (first, second) →
            first.2 ≠ .ignored ∧ second.2 ≠ .ignored) ↔
          ∀ item other phase otherPhase, Compared settings listed item other →
            item.phase settings = .ok (some phase) → other.phase settings = .ok (some otherPhase) →
            (phase = .ignored ↔ otherPhase = .ignored)) := by
  constructor
  · intro calls warning given first second sides
    have advances : Advances settings .empty (after settings calls : Verifier artifact) :=
      after_advances settings [] calls
    obtain ⟨apart, known, knownOther, bound⟩ := after_justified settings calls warning given sides
    exact ⟨apart, bound, advances.declared_of_empty known, advances.declared_of_empty knownOther⟩
  · intro count final ran distinct
    obtain ⟨_, listed, lists, reports⟩ := reports_of_verifyAll ran distinct
    refine ⟨listed, lists, ?_, ?_⟩
    · intro exempt item other phase otherPhase compared phased otherPhased
      by_cases same : phase = otherPhase
      · rw [same]
      · have clash : item.Clash settings other (item.key, phase) (other.key, otherPhase) :=
          ⟨rfl, phased, rfl, otherPhased, same⟩
        have set := reports.clash_iff.mpr ⟨item, other, compared, clash⟩
        obtain ⟨warning, given, sides⟩ := List.mem_filterMap.mp set
        obtain ⟨unignored, otherUnignored⟩ := exempt warning given _ _ sides
        simp [unignored, otherUnignored]
    · intro agree warning given first second sides
      obtain ⟨item, other, compared, clash⟩ := reports.clash_iff.mp (List.mem_filterMap.mpr ⟨warning, given, sides⟩)
      have both := agree item other first.2 second.2 compared clash.phase clash.otherPhase
      constructor
      · intro ignored
        exact clash.apart (ignored.trans (both.mp ignored).symm)
      · intro ignored
        exact clash.apart ((both.mpr ignored).trans ignored.symm)

-- Calls of the methods of the constants 12 and 13, and `return`.
def callingCode : List UInt8 := [0xB6, 0, 12, 0xB7, 0, 13, 0xB1]

-- What a body calls. The calls of `callingCode` are filled in, because a scan does not reduce.
def knownCalls (pool : Pool) (body : Body) : Except FormatError (List MethodRef) :=
  if body.bytecode = callingCode ∧ body.handlers = [] then do
    return (← [12, 13].mapM pool.methodRef).eraseDups
  else
    body.calls pool

theorem calls_eq_knownCalls : Body.calls = knownCalls := by
  funext pool body
  unfold knownCalls
  split
  next code =>
    have start : body.entries = [0] := by simp [Body.entries, code.2]
    have ran : Scan.run callingCode [0] (CallSite.collect callingCode) [] = .ok [0] [⟨3, 13⟩, ⟨0, 12⟩] := by cbv
    have sites : body.callSites = .ok [⟨0, 12⟩, ⟨3, 13⟩] :=
      Body.callSites_of_two (by decide) (by rw [code.1, start]; exact ran)
    rw [Body.calls, sites]
    rfl
  next => rfl

-- A class file whose class has a name and a superclass of one letter. Its method `r()V` has one annotation, and calls
-- `m()V` of the class and of the superclass.
def callingFile (name super note : UInt8) : List UInt8 :=
  [0xCA, 0xFE, 0xBA, 0xBE, 0, 0, 0, 52, 0, 14, 1, 0, 1, name, 7, 0, 1, 1, 0, 1, super, 7, 0, 3,
    1, 0, 3, 76, note, 59, 1, 0, 25] ++ "RuntimeVisibleAnnotations".toUTF8.data.toList ++
  [1, 0, 1, 114, 1, 0, 3, 40, 41, 86, 1, 0, 4, 67, 111, 100, 101, 1, 0, 1, 109, 12, 0, 10, 0, 8, 10, 0, 2, 0, 11,
    10, 0, 4, 0, 11, 0, 0, 0, 2, 0, 4, 0, 0, 0, 0, 0, 1, 0, 0, 0, 7, 0, 8, 0, 2, 0, 6, 0, 0, 0, 6, 0, 1, 0, 5, 0, 0,
    0, 9, 0, 0, 0, 19, 0, 1, 0, 1, 0, 0, 0, 7] ++ callingCode ++ [0, 0, 0, 0, 0, 0]

def lowerName : ClassName := ⟨"D", by decide, by decide⟩

def ignoredName : ClassName := ⟨"E", by decide, by decide⟩

def callingName : ClassName := ⟨"P", by decide, by decide⟩

def callerName : MemberName := ⟨"r", by decide, by simp [MemberName.separators]⟩

-- A class with an ignored method, and two below it, one that overrides the method and one that calls it.
def ignoringArtifact : Artifact :=
  ClassStore.toArtifact ⟨[(lowerName, annotatedFile 68 69 70), (ignoredName, annotatedFile 69 67 73),
    (callingName, callingFile 80 69 70)]⟩

theorem ignored_compared_overridden :
    ∃ (final : Verifier ignoringArtifact) (listed : List (DeclaredMethod ignoringArtifact)) (warning : Warning)
        (first second : MethodKey × Phase) (item other : DeclaredMethod ignoringArtifact),
      verifyAll letterSettings .empty = .ok 3 final ∧ (∀ loaded ∈ final.loader.classes, loaded.MethodsDistinct) ∧
      warning ∈ (after letterSettings [.verifyAll] : Verifier ignoringArtifact).warnings ∧
      warning.sides? = some (first, second) ∧ second.2 = .ignored ∧ first.2 ≠ .ignored ∧
      item.key = first.1 ∧ other.key = second.1 ∧ item.Bound letterSettings other ∧
      ignoringArtifact.listed = .ok listed ∧
      ∃ below above phase otherPhase, Compared letterSettings listed below above ∧
        below.phase letterSettings = .ok (some phase) ∧ above.phase letterSettings = .ok (some otherPhase) ∧
        ¬(phase = .ignored ↔ otherPhase = .ignored) := by
  have checked : succeeds (fun count final => decide (count = 3 ∧ (∀ loaded ∈ final.loader.classes,
        (loaded.file.methods.map fun method => (method.name, method.descriptor)).Nodup) ∧
        ∃ sides ∈ final.warnings.filterMap Warning.sides?, sides.2.2 = .ignored))
      (verifyAll letterSettings (.empty : Verifier ignoringArtifact)) = true := by
    delta verifyAll verifyClass verify Loader.callees
    rw [calls_eq_knownCalls]
    decide +kernel
  obtain ⟨count, final, ran, checked⟩ := exists_of_succeeds checked
  obtain ⟨rfl, distinct, ⟨first, second⟩, set, ignored⟩ := of_decide_eq_true checked
  obtain ⟨warning, given, sides⟩ := List.mem_filterMap.mp set
  have state : after letterSettings [.verifyAll] = final := congrArg stateOf (bind_of_ok ran)
  have among : warning ∈ (after letterSettings [.verifyAll] : Verifier ignoringArtifact).warnings := by
    rw [state]
    exact given
  obtain ⟨apart, ⟨item, other, key, otherKey, bound⟩, _⟩ :=
    (ignored_compared letterSettings).1 [.verifyAll] warning among first second sides
  obtain ⟨listed, lists, exempt⟩ := (ignored_compared letterSettings).2 3 final ran distinct
  have some := mt exempt.mpr fun none => (none warning given first second sides).2 ignored
  push Not at some
  obtain ⟨below, above, phase, otherPhase, compared, phased, otherPhased, differ⟩ := some
  refine ⟨final, listed, warning, first, second, item, other, ran, distinct, among, sides, ignored, ?_, key, otherKey,
    bound, lists, below, above, phase, otherPhase, compared, phased, otherPhased, ?_⟩
  · exact fun same => apart (same.trans ignored.symm)
  · tauto

-- An ignored method is not exempt: it is set against a method that overrides it and against one that calls it, for
-- each of the two classes that the calls name.
theorem ignored_mismatched :
    ∃ final : Verifier ignoringArtifact, verifyAll letterSettings .empty = .ok 3 final ∧
      final.warnings =
        [.overrideMismatch ⟨lowerName, methodName, "()V"⟩ .flow ⟨ignoredName, methodName, "()V"⟩ .ignored,
          .callMismatch ⟨callingName, callerName, "()V"⟩ .flow ⟨ignoredName, methodName, "()V"⟩ .ignored,
          .callMismatch ⟨callingName, callerName, "()V"⟩ .flow ⟨ignoredName, methodName, "()V"⟩ .ignored] ∧
      final.messages =
        ["mismatched phase between method D.m()V (flow) and overridden method E.m()V (ignored)",
          "mismatched phase between caller P.r()V (flow) and callee E.m()V (ignored)",
          "mismatched phase between caller P.r()V (flow) and callee E.m()V (ignored)"] := by
  have checked : succeeds (fun count final => decide (count = 3 ∧ final.warnings =
        [.overrideMismatch ⟨lowerName, methodName, "()V"⟩ .flow ⟨ignoredName, methodName, "()V"⟩ .ignored,
          .callMismatch ⟨callingName, callerName, "()V"⟩ .flow ⟨ignoredName, methodName, "()V"⟩ .ignored,
          .callMismatch ⟨callingName, callerName, "()V"⟩ .flow ⟨ignoredName, methodName, "()V"⟩ .ignored] ∧
        final.messages =
          ["mismatched phase between method D.m()V (flow) and overridden method E.m()V (ignored)",
            "mismatched phase between caller P.r()V (flow) and callee E.m()V (ignored)",
            "mismatched phase between caller P.r()V (flow) and callee E.m()V (ignored)"]))
      (verifyAll letterSettings (.empty : Verifier ignoringArtifact)) = true := by
    delta verifyAll verifyClass verify Loader.callees
    rw [calls_eq_knownCalls]
    decide +kernel
  obtain ⟨count, final, ran, checked⟩ := exists_of_succeeds checked
  obtain ⟨rfl, warnings, messages⟩ := of_decide_eq_true checked
  exact ⟨final, ran, warnings, messages⟩

end Verifier

end PhaseCheck
