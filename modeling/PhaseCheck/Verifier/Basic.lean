import PhaseCheck.Verifier.Callees
import PhaseCheck.Verifier.Overriding

set_option autoImplicit false

namespace PhaseCheck

structure Verifier (artifact : Artifact) where
  loader : Loader artifact
  phases : List (MethodKey × Option Phase)
  warnings : List Warning
  warningCount : Nat

abbrev VerifierM (artifact : Artifact) := EStateM CheckError (Verifier artifact)

namespace Verifier

variable {artifact : Artifact}

def empty : Verifier artifact := ⟨.empty, [], [], 0⟩

instance : MonadLift (LoaderM artifact) (VerifierM artifact) where
  monadLift action verifier :=
    match action verifier.loader with
    | .ok value loader => .ok value { verifier with loader }
    | .error cause loader => .error cause { verifier with loader }

def note (verifier : Verifier artifact) (event : Event) : Verifier artifact :=
  { verifier with loader := verifier.loader.note event }

def warn (verifier : Verifier artifact) (warning : Warning) : Verifier artifact :=
  { verifier.note (.warned warning) with
    warnings := verifier.warnings ++ [warning], warningCount := verifier.warningCount + 1 }

def warnAll (verifier : Verifier artifact) (warnings : List Warning) : Verifier artifact :=
  warnings.foldl warn verifier

-- What has been written out so far, one text for each warning.
def messages (verifier : Verifier artifact) : List String :=
  verifier.warnings.map Warning.message

def settled (verifier : Verifier artifact) : List MethodKey :=
  verifier.phases.map Prod.fst

def phase? (verifier : Verifier artifact) (key : MethodKey) : Option (Option Phase) :=
  (verifier.phases.find? (·.1 = key)).map Prod.snd

def settle (verifier : Verifier artifact) (key : MethodKey) (declaration : Declaration) : Verifier artifact :=
  { verifier.warnAll (if 1 < declaration.phases.length then [.severalPhases key declaration.phases] else []) with
    phases := (key, declaration.phase) :: verifier.phases }

def overrideWarnings (key : MethodKey) (phase : Option Phase) (overridden : MethodKey)
    (overriddenPhase : Option Phase) : List Warning :=
  match phase, overriddenPhase with
  | some phase, some other => if phase = other then [] else [.overrideMismatch key phase overridden other]
  | _, _ => []

theorem not_mem_settled {verifier : Verifier artifact} {key : MethodKey} (unknown : verifier.phase? key = none) :
    key ∉ verifier.settled := by
  intro present
  obtain ⟨entry, inside, same⟩ := List.mem_map.mp present
  simp only [phase?, Option.map_eq_none_iff, List.find?_eq_none] at unknown
  exact unknown entry inside (by simpa using same)

@[simp] theorem settled_settle (verifier : Verifier artifact) (key : MethodKey) (declaration : Declaration) :
    (verifier.settle key declaration).settled = key :: verifier.settled := rfl

/-- The phase of a method. The first time, the method is compared with the one it overrides. -/
def phaseOf (settings : Settings) (item : DeclaredMethod artifact) (verifier : Verifier artifact) :
    EStateM.Result CheckError (Verifier artifact) (Option Phase) :=
  match _unknown : verifier.phase? item.key with
  | some phase => .ok phase verifier
  | none =>
    match item.annotations with
    | .error cause => .error (.badClass item.owner.name cause) verifier
    | .ok notes =>
      let declaration := settings.declaration notes
      let verifier := verifier.settle item.key declaration
      match Loader.findOverridden settings.libraries item verifier.loader with
      | .error cause loader => .error cause { verifier with loader }
      | .ok none loader =>
        .ok declaration.phase
          ({ verifier with loader }.warnAll (if declaration.marked then [.nothingOverridden item.key] else []))
      | .ok (some overridden) loader =>
        match phaseOf settings overridden ({ verifier with loader }.note (.overrides item.key overridden.key)) with
        | .error cause verifier => .error cause verifier
        | .ok phase verifier =>
          .ok declaration.phase
            (verifier.warnAll (overrideWarnings item.key declaration.phase overridden.key phase))
termination_by unvisited artifact.methodKeys verifier.settled
decreasing_by exact unvisited_cons_lt item.key_mem (not_mem_settled _unknown)

def getPhase (settings : Settings) (item : DeclaredMethod artifact) : VerifierM artifact (Option Phase) :=
  phaseOf settings item

def verifyCall (settings : Settings) (caller : MethodKey) (phase : Phase) (callee : DeclaredMethod artifact) :
    VerifierM artifact Unit := do
  match ← getPhase settings callee with
  | some other =>
    if other ≠ phase then
      modify (·.warn (.callMismatch caller phase callee.key other))
  | none => return

def verify (settings : Settings) (item : DeclaredMethod artifact) : VerifierM artifact Unit := do
  match ← getPhase settings item with
  | none => modify (·.warn (.noPhase item.key))
  | some phase =>
    let callees ← Loader.callees settings item
    callees.forM (verifyCall settings item.key phase)

def verifyClass (settings : Settings) (name : ClassName) : VerifierM artifact Unit := do
  let loaded ← (Loader.load name : LoaderM artifact (LoadedClass artifact))
  modify (·.note (.verifying loaded.methods.length name))
  loaded.methods.forM (verify settings)

/-- Checks every method of every class that the artifact names, and counts the warnings. -/
def verifyAll (settings : Settings) : VerifierM artifact Nat := do
  match artifact.names with
  | .error cause => throw cause
  | .ok names =>
    names.forM (verifyClass settings)
    return (← get).warningCount

end Verifier

end PhaseCheck
