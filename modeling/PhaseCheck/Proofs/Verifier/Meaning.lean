import PhaseCheck.Proofs.Hierarchy.Steady
import PhaseCheck.Verifier.Basic

set_option autoImplicit false

namespace PhaseCheck

def tellEach {β : Type} (tells : β → Except CheckError (List Warning)) (items : List β) :
    Except CheckError (List Warning) := do
  return (← items.mapM tells).flatten

section

variable {β : Type} (tells : β → Except CheckError (List Warning))

theorem tellEach_cons (item : β) (rest : List β) :
    tellEach tells (item :: rest) = (do return (← tells item) ++ (← tellEach tells rest)) := by
  rw [tellEach, tellEach, List.mapM_cons]
  cases tells item <;> cases rest.mapM tells <;> rfl

theorem tellEach_append (items others : List β) :
    tellEach tells (items ++ others) = (do return (← tellEach tells items) ++ (← tellEach tells others)) :=
  mapM_flatten_append tells items others

end

namespace Settings

/-- The phase that an annotation of some type stands for. A type that is set for several stands for the first of them. -/
def tag? (settings : Settings) (type : ClassName) : Option Phase :=
  if type = settings.setup then some .setup
  else if type = settings.flow then some .flow
  else if type = settings.ignored then some .ignored
  else none

def firstTag? (settings : Settings) (notes : List AnnotationTree) : Option Phase :=
  notes.findSome? fun note => settings.tag? note.type

theorem phaseOf_eq_tag? (settings : Settings) (type : ClassName) : settings.phaseOf type = settings.tag? type := by
  unfold phaseOf tag? Phase.all
  simp only [List.find?_cons, List.find?_nil, typeFor, eq_comm (a := type)]
  by_cases setup : settings.setup = type
  · simp [setup]
  · by_cases flow : settings.flow = type
    · simp [setup, flow]
    · by_cases ignored : settings.ignored = type <;> simp [setup, flow, ignored]

theorem phase_declaration (settings : Settings) (notes : List AnnotationTree) :
    (settings.declaration notes).phase = settings.firstTag? notes := by
  simp only [Declaration.phase, declaration, phaseOf_eq_tag?]
  exact List.head?_filterMap

end Settings

namespace DeclaredMethod

variable {artifact : Artifact}

def declaration (settings : Settings) (item : DeclaredMethod artifact) : Except CheckError Declaration :=
  match item.annotations with
  | .ok notes =>
    .ok { phases := notes.filterMap fun note => settings.tag? note.type
          marked := notes.any fun note => note.type = settings.marker }
  | .error cause => .error (.badClass item.owner.name cause)

theorem declaration_eq (settings : Settings) (item : DeclaredMethod artifact) :
    item.declaration settings =
      match item.annotations with
      | .ok notes => .ok (settings.declaration notes)
      | .error cause => .error (.badClass item.owner.name cause) := by
  unfold declaration
  simp only [Settings.declaration, Settings.phaseOf_eq_tag?]

theorem declaration_of_ok {settings : Settings} {item : DeclaredMethod artifact} {notes : List AnnotationTree}
    (read : item.annotations = .ok notes) : item.declaration settings = .ok (settings.declaration notes) := by
  rw [declaration_eq, read]

theorem declaration_of_error {settings : Settings} {item : DeclaredMethod artifact} {reason : FormatError}
    (unread : item.annotations = .error reason) :
    item.declaration settings = .error (.badClass item.owner.name reason) := by
  rw [declaration, unread]

def phase (settings : Settings) (item : DeclaredMethod artifact) : Except CheckError (Option Phase) := do
  return (← item.declaration settings).phases.head?

def overridden (settings : Settings) (item : DeclaredMethod artifact) :
    Except CheckError (Option (DeclaredMethod artifact)) :=
  LoaderM.fresh (Loader.findOverridden settings.libraries item)

def callees (settings : Settings) (item : DeclaredMethod artifact) :
    Except CheckError (List (DeclaredMethod artifact)) :=
  LoaderM.fresh (Loader.callees settings item)

def mismatches (caller : MethodKey) (phase : Phase) (callee : MethodKey) : Option Phase → List Warning
  | some other => if other = phase then [] else [.callMismatch caller phase callee other]
  | none => []

def callWarnings (settings : Settings) (caller : MethodKey) (phase : Phase) (callee : DeclaredMethod artifact) :
    Except CheckError (List Warning) := do
  return mismatches caller phase callee.key (← callee.phase settings)

/-- What is said about a method each time it is listed: that it has no phase, or which calls do not fit. -/
def listedWarnings (settings : Settings) (item : DeclaredMethod artifact) : Except CheckError (List Warning) := do
  match ← item.phase settings with
  | none => return [.noPhase item.key]
  | some phase => tellEach (callWarnings settings item.key phase) (← item.callees settings)

/-- What is said about the declaration of a method and about the method it overrides. -/
def ownWarnings (settings : Settings) (item : DeclaredMethod artifact) : Except CheckError (List Warning) := do
  let declaration ← item.declaration settings
  let several := if 1 < declaration.phases.length then [.severalPhases item.key declaration.phases] else []
  match ← item.overridden settings with
  | none => return several ++ if declaration.marked then [.nothingOverridden item.key] else []
  | some above =>
    match declaration.phases.head?, ← above.phase settings with
    | some phase, some other =>
      return several ++ if phase = other then [] else [.overrideMismatch item.key phase above.key other]
    | _, _ => return several

end DeclaredMethod

def Artifact.listed (artifact : Artifact) : Except CheckError (List (DeclaredMethod artifact)) := do
  let loaded ← (← artifact.names).mapM fun name => LoaderM.fresh (Loader.load name)
  return loaded.flatMap LoadedClass.methods

/-- The methods whose phases matter: those that are listed, those that a listed method with a phase calls,
and whatever these override. -/
inductive Reached {artifact : Artifact} (settings : Settings) (listed : List (DeclaredMethod artifact)) :
    DeclaredMethod artifact → Prop where
  | listed {item : DeclaredMethod artifact} (present : item ∈ listed) : Reached settings listed item
  | called {item callee : DeclaredMethod artifact} {phase : Phase} {callees : List (DeclaredMethod artifact)}
      (present : item ∈ listed) (phased : item.phase settings = .ok (some phase))
      (calls : item.callees settings = .ok callees) (called : callee ∈ callees) : Reached settings listed callee
  | overridden {item above : DeclaredMethod artifact} (below : Reached settings listed item)
      (overrides : item.overridden settings = .ok (some above)) : Reached settings listed above

def Reports {artifact : Artifact} (settings : Settings) (listed : List (DeclaredMethod artifact))
    (warnings : List Warning) : Prop :=
  ∃ (reached : List (DeclaredMethod artifact)) (forListed own : List Warning),
    reached.Nodup ∧ (∀ item, item ∈ reached ↔ Reached settings listed item) ∧
    tellEach (DeclaredMethod.listedWarnings settings) listed = .ok forListed ∧
    tellEach (DeclaredMethod.ownWarnings settings) reached = .ok own ∧ warnings.Perm (forListed ++ own)

end PhaseCheck
