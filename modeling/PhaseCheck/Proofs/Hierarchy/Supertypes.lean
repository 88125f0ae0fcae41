import Mathlib.Logic.Relation
import PhaseCheck.Proofs.Hierarchy.Steady

set_option autoImplicit false

namespace PhaseCheck

open Relation (ReflTransGen)

namespace Artifact

variable {artifact : Artifact} {libraries : List String} {name above : ClassName} {cause : CheckError}

/-- One class extends or implements another. Nothing is known to be above a library class. -/
def Extends (artifact : Artifact) (libraries : List String) (name above : ClassName) : Prop :=
  isLibrary libraries name = false ∧ ∃ loaded, artifact.load name = .ok loaded ∧
    (loaded.file.superclass = some above ∨ above ∈ loaded.file.interfaces)

/-- A class is there but does not load. -/
structure Broken (artifact : Artifact) (libraries : List String) (name : ClassName) (cause : CheckError) : Prop where
  owned : isLibrary libraries name = false
  present : ∀ missing, artifact.file name ≠ .error (.missingClass missing)
  fails : artifact.load name = .error cause

def lookUp (artifact : Artifact) (libraries : List String) (name : ClassName) :
    Except CheckError (Option (LoadedClass artifact)) :=
  if isLibrary libraries name then .ok none else Loader.orAbsent (artifact.load name)

theorem mem_supertypes_iff {file : ClassFile} : above ∈ file.supertypes ↔
    file.superclass = some above ∨ above ∈ file.interfaces := by
  simp [ClassFile.supertypes, Option.mem_toList]

theorem load_of_absent {missing : ClassName} (absent : artifact.file name = .error (.missingClass missing)) :
    artifact.load name = .error (.missingClass missing) := by
  apply load_of_error
  simp only [decode, absent]

theorem not_extends_of_lookUp (found : artifact.lookUp libraries name = .ok none) :
    ¬artifact.Extends libraries name above := by
  rintro ⟨owned, loaded, loads, _⟩
  simp [lookUp, owned, loads, Loader.orAbsent] at found

theorem load_of_lookUp {loaded : LoadedClass artifact} (found : artifact.lookUp libraries name = .ok (some loaded)) :
    isLibrary libraries name = false ∧ artifact.load name = .ok loaded := by
  unfold lookUp at found
  split at found
  next => cases found
  next owned =>
    refine ⟨by simpa using owned, ?_⟩
    cases loads : artifact.load name with
    | ok other =>
      rw [loads] at found
      cases found
      rfl
    | error cause =>
      rw [loads] at found
      cases cause <;> cases found

theorem extends_iff_of_lookUp {loaded : LoadedClass artifact}
    (found : artifact.lookUp libraries name = .ok (some loaded)) :
    artifact.Extends libraries name above ↔ above ∈ loaded.file.supertypes := by
  obtain ⟨owned, loads⟩ := load_of_lookUp found
  rw [mem_supertypes_iff]
  constructor
  · rintro ⟨_, other, also, direct⟩
    cases loads.symm.trans also
    exact direct
  · intro direct
    exact ⟨owned, loaded, loads, direct⟩

theorem broken_of_lookUp (failed : artifact.lookUp libraries name = .error cause) :
    artifact.Broken libraries name cause := by
  unfold lookUp at failed
  split at failed
  next => cases failed
  next owned =>
    cases loads : artifact.load name with
    | ok loaded =>
      rw [loads] at failed
      cases failed
    | error other =>
      -- A class that is missing would have passed as one of which nothing is known.
      have present (missing : ClassName) : artifact.file name ≠ .error (.missingClass missing) := by
        intro absent
        rw [load_of_absent absent] at failed
        cases failed
      have same : other = cause := by
        rw [loads] at failed
        cases other <;> cases failed <;> rfl
      exact ⟨by simpa using owned, present, by rw [loads, same]⟩

end Artifact

namespace SupertypeSearch

variable {artifact : Artifact} {libraries : List String} {origin goal : ClassName} {search next : SupertypeSearch}

theorem mem_enter_seen {name other : ClassName} :
    other ∈ (search.enter name).seen ↔ other ∈ search.seen ∨ other = name := by
  by_cases known : name ∈ search.seen
  next =>
    rw [enter, if_pos known]
    constructor
    · exact .inl
    · rintro (present | rfl)
      · exact present
      · exact known
  next => rw [enter, if_neg known, List.mem_cons, or_comm]

theorem mem_enter_pending {name other : ClassName} :
    other ∈ (search.enter name).pending ↔ other ∈ search.pending ∨ other = name ∧ other ∉ search.seen := by
  by_cases known : name ∈ search.seen
  next =>
    rw [enter, if_pos known]
    constructor
    · exact .inl
    · rintro (present | ⟨rfl, new⟩)
      · exact present
      · exact absurd known new
  next =>
    rw [enter, if_neg known, List.mem_cons, or_comm]
    refine or_congr_right ⟨?_, And.left⟩
    rintro rfl
    exact ⟨rfl, known⟩

theorem enterAll_cons (name : ClassName) (rest : List ClassName) :
    search.enterAll (name :: rest) = (search.enter name).enterAll rest :=
  rfl

theorem mem_enterAll_seen {names : List ClassName} {other : ClassName} :
    other ∈ (search.enterAll names).seen ↔ other ∈ search.seen ∨ other ∈ names := by
  induction names generalizing search with
  | nil => simp [enterAll]
  | cons name rest ih => rw [enterAll_cons, ih, mem_enter_seen, List.mem_cons, or_assoc]

theorem mem_enterAll_pending {names : List ClassName} {other : ClassName} :
    other ∈ (search.enterAll names).pending ↔ other ∈ search.pending ∨ other ∈ names ∧ other ∉ search.seen := by
  induction names generalizing search with
  | nil => simp [enterAll]
  | cons name rest ih =>
    rw [enterAll_cons, ih, mem_enter_pending, mem_enter_seen, List.mem_cons]
    by_cases same : other = name <;> simp [same]

inductive Turns (artifact : Artifact) (libraries : List String) (goal : ClassName) :
    SupertypeSearch → SupertypeSearch → Prop where
  | skip {search : SupertypeSearch} {name : ClassName} {rest : List ClassName} (pending : search.pending = name :: rest)
      (other : name ≠ goal) (unknown : artifact.lookUp libraries name = .ok none) :
      Turns artifact libraries goal search { search with pending := rest }
  | enter {search : SupertypeSearch} {name : ClassName} {rest : List ClassName} {loaded : LoadedClass artifact}
      (pending : search.pending = name :: rest) (other : name ≠ goal)
      (found : artifact.lookUp libraries name = .ok (some loaded)) :
      Turns artifact libraries goal search ({ search with pending := rest }.enterAll loaded.file.supertypes)

inductive Stops (artifact : Artifact) (libraries : List String) (goal : ClassName) (search : SupertypeSearch) :
    Except CheckError Bool → Prop where
  | exhausted (finished : search.pending = []) : Stops artifact libraries goal search (.ok false)
  | arrived {rest : List ClassName} (pending : search.pending = goal :: rest) :
      Stops artifact libraries goal search (.ok true)
  | failed {name : ClassName} {rest : List ClassName} {cause : CheckError} (pending : search.pending = name :: rest)
      (failure : artifact.lookUp libraries name = .error cause) : Stops artifact libraries goal search (.error cause)

theorem Turns.size_lt (turns : Turns artifact libraries goal search next) :
    next.size artifact.supertypes < search.size artifact.supertypes := by
  cases turns with
  | skip pending => simp [size, pending]
  | @enter name rest loaded pending =>
    have entered := enterAll_size_le { search with pending := rest } loaded.covered
    simp only [size, pending, List.length_cons] at entered ⊢
    omega

theorem turns_wellFounded (artifact : Artifact) (libraries : List String) (goal : ClassName) :
    WellFounded fun later earlier => Turns artifact libraries goal earlier later :=
  Subrelation.wf Turns.size_lt (measure (size artifact.supertypes)).wf

/-- What is known while names above `origin` are searched for the goal. -/
structure Explores (artifact : Artifact) (libraries : List String) (origin goal : ClassName)
    (search : SupertypeSearch) : Prop where
  rooted : origin ∈ search.seen
  above : ∀ name ∈ search.seen, ReflTransGen (artifact.Extends libraries) origin name
  planned : search.pending ⊆ search.seen
  done : ∀ name ∈ search.seen, name ∉ search.pending →
    name ≠ goal ∧ ∀ above, artifact.Extends libraries name above → above ∈ search.seen

namespace Explores

theorem start (artifact : Artifact) (libraries : List String) (origin goal : ClassName) :
    Explores artifact libraries origin goal (.start origin) where
  rooted := List.mem_singleton_self _
  above name present := by
    rw [List.mem_singleton.mp present]
  planned := List.Subset.refl _
  done name present new := absurd present new

theorem turn (explores : Explores artifact libraries origin goal search)
    (turns : Turns artifact libraries goal search next) : Explores artifact libraries origin goal next := by
  cases turns with
  | @skip name rest pending different unknown =>
    refine ⟨explores.rooted, explores.above, fun other later => explores.planned (by simp [pending, later]), ?_⟩
    intro other present unplanned
    by_cases same : other = name
    next =>
      subst same
      exact ⟨different, fun above direct => absurd direct (Artifact.not_extends_of_lookUp unknown)⟩
    next => exact explores.done other present (by simp [pending, same, unplanned])
  | @enter name rest loaded pending different found =>
    have direct {above : ClassName} : artifact.Extends libraries name above ↔ above ∈ loaded.file.supertypes :=
      Artifact.extends_iff_of_lookUp found
    have known : name ∈ search.seen := explores.planned (by simp [pending])
    refine ⟨mem_enterAll_seen.mpr (.inl explores.rooted), ?_, ?_, ?_⟩
    · intro other present
      rcases mem_enterAll_seen.mp present with old | new
      · exact explores.above other old
      · exact (explores.above name known).tail (direct.mpr new)
    · intro other planned
      rcases mem_enterAll_pending.mp planned with old | ⟨new, _⟩
      · exact mem_enterAll_seen.mpr (.inl (explores.planned (by simp [pending, old])))
      · exact mem_enterAll_seen.mpr (.inr new)
    · intro other present unplanned
      -- What has just been seen for the first time is planned, so this is not new.
      have old : other ∈ search.seen := by
        rcases mem_enterAll_seen.mp present with old | new
        · exact old
        · refine Classical.byContradiction fun unseen => ?_
          exact unplanned (mem_enterAll_pending.mpr (.inr ⟨new, unseen⟩))
      have later : other ∉ rest := fun planned => unplanned (mem_enterAll_pending.mpr (.inl planned))
      by_cases same : other = name
      next =>
        subst same
        exact ⟨different, fun above extended => mem_enterAll_seen.mpr (.inr (direct.mp extended))⟩
      next =>
        obtain ⟨notGoal, closed⟩ := explores.done other old (by simp [pending, same, later])
        exact ⟨notGoal, fun above extended => mem_enterAll_seen.mpr (.inl (closed above extended))⟩

theorem run (explores : Explores artifact libraries origin goal search)
    (turns : ReflTransGen (Turns artifact libraries goal) search next) :
    Explores artifact libraries origin goal next := by
  induction turns with
  | refl => exact explores
  | tail _ turns ih => exact ih.turn turns

theorem mem_seen (explores : Explores artifact libraries origin goal search) (finished : search.pending = [])
    {name : ClassName} (above : ReflTransGen (artifact.Extends libraries) origin name) : name ∈ search.seen := by
  -- Nothing is planned any more, so what has been seen is closed under going up.
  induction above with
  | refl => exact explores.rooted
  | tail _ direct ih => exact (explores.done _ ih (by simp [finished])).2 _ direct

theorem found_iff (explores : Explores artifact libraries origin goal search) {found : Bool}
    (stops : Stops artifact libraries goal search (.ok found)) :
    found = true ↔ ReflTransGen (artifact.Extends libraries) origin goal := by
  cases stops with
  | exhausted finished =>
    refine ⟨nofun, fun above => ?_⟩
    have seen := explores.mem_seen finished above
    exact absurd rfl (explores.done goal seen (by simp [finished])).1
  | arrived pending => exact ⟨fun _ => explores.above goal (explores.planned (by simp [pending])), fun _ => rfl⟩

theorem exists_broken (explores : Explores artifact libraries origin goal search) {cause : CheckError}
    (stops : Stops artifact libraries goal search (.error cause)) :
    ∃ name, ReflTransGen (artifact.Extends libraries) origin name ∧ artifact.Broken libraries name cause := by
  cases stops with
  | @failed name rest _ pending failure =>
    exact ⟨name, explores.above name (explores.planned (by simp [pending])), Artifact.broken_of_lookUp failure⟩

end Explores

end SupertypeSearch

namespace LoaderM

variable {artifact : Artifact} {libraries : List String} {origins more : ClassName → Prop} {α β : Type}

/-- Whatever has been loaded before, what an action answers is right, and it fails only at a class above certain others
that does not load. -/
structure Meets (libraries : List String) (origins : ClassName → Prop) (action : LoaderM artifact α) (holds : α → Prop) :
    Prop where
  right : ∀ {loader value}, answerOf (action loader) = .ok value → holds value
  broken : ∀ {loader cause}, answerOf (action loader) = .error cause → ∃ origin name, origins origin ∧
    ReflTransGen (artifact.Extends libraries) origin name ∧ artifact.Broken libraries name cause

def Decides (libraries : List String) (origins : ClassName → Prop) (test : LoaderM artifact Bool) (holds : Prop) : Prop :=
  Meets libraries origins test fun found => found = true ↔ holds

namespace Meets

variable {action : LoaderM artifact α} {holds : α → Prop}

theorem done {value : α} (given : holds value) : Meets libraries origins (pure value : LoaderM artifact α) holds where
  right answered := by cases answered; exact given
  broken answered := by cases answered

theorem mono {weaker : α → Prop} (meets : Meets libraries origins action holds)
    (wider : ∀ value, holds value → weaker value) : Meets libraries origins action weaker where
  right answered := wider _ (meets.right answered)
  broken := meets.broken

theorem widen (meets : Meets libraries origins action holds) (wider : ∀ origin, origins origin → more origin) :
    Meets libraries more action holds where
  right := meets.right
  broken answered := by
    obtain ⟨origin, name, among, above, broken⟩ := meets.broken answered
    exact ⟨origin, name, wider origin among, above, broken⟩

theorem andThen {rest : α → LoaderM artifact β} {result : β → Prop} (meets : Meets libraries origins action holds)
    (next : ∀ value, holds value → Meets libraries origins (rest value) result) :
    Meets libraries origins (action >>= rest) result where
  right {loader value} answered := by
    cases ran : action loader with
    | ok first middle =>
      rw [bind_of_ok ran] at answered
      exact (next first (meets.right (congrArg answerOf ran))).right answered
    | error cause middle =>
      rw [bind_of_error ran] at answered
      cases answered
  broken {loader cause} answered := by
    cases ran : action loader with
    | ok first middle =>
      rw [bind_of_ok ran] at answered
      exact (next first (meets.right (congrArg answerOf ran))).broken answered
    | error other middle =>
      rw [bind_of_error ran] at answered
      cases answered
      exact meets.broken (congrArg answerOf ran)

end Meets

namespace Decides

variable {test : LoaderM artifact Bool} {holds other : Prop}

theorem yes (proved : holds) : Decides libraries origins (pure true : LoaderM artifact Bool) holds :=
  .done (iff_of_true rfl proved)

theorem no (refuted : ¬holds) : Decides libraries origins (pure false : LoaderM artifact Bool) holds :=
  .done (iff_of_false Bool.false_ne_true refuted)

theorem congr (decides : Decides libraries origins test holds) (same : holds ↔ other) :
    Decides libraries origins test other :=
  Meets.mono decides fun _ found => found.trans same

theorem widen (decides : Decides libraries origins test holds) (wider : ∀ origin, origins origin → more origin) :
    Decides libraries more test holds :=
  Meets.widen decides wider

end Decides

end LoaderM

namespace Loader

open SupertypeSearch

theorem reaches_stops {artifact : Artifact} (libraries : List String) (goal : ClassName) (search : SupertypeSearch)
    (loader : Loader artifact) :
    ∃ last, ReflTransGen (Turns artifact libraries goal) search last ∧
      Stops artifact libraries goal last (answerOf (reaches libraries goal search loader)) := by
  induction search using @reaches.induct artifact goal generalizing loader with
  | case1 search finished =>
    rw [reaches_of_nil finished]
    exact ⟨search, .refl, .exhausted finished⟩
  | case2 search rest pending =>
    rw [reaches_of_goal pending]
    exact ⟨search, .refl, .arrived pending⟩
  | case3 search name rest pending different skip enter =>
    rw [reaches_of_other pending different]
    have answered : answerOf (loadOptional libraries name loader) = artifact.lookUp libraries name :=
      answer_loadOptional libraries name loader
    cases ran : loadOptional libraries name loader with
    | error cause final =>
      rw [ran] at answered
      rw [bind_of_error ran]
      exact ⟨search, .refl, .failed pending answered.symm⟩
    | ok found middle =>
      rw [ran] at answered
      rw [bind_of_ok ran]
      cases found with
      | none =>
        obtain ⟨last, turns, stops⟩ := skip middle
        exact ⟨last, .head (.skip pending different answered.symm) turns, stops⟩
      | some loaded =>
        obtain ⟨last, turns, stops⟩ := enter loaded middle
        exact ⟨last, .head (.enter pending different answered.symm) turns, stops⟩

theorem isSubclass_stops {artifact : Artifact} (libraries : List String) (sub : ClassName) {super : ClassName}
    (top : super ≠ .object) (loader : Loader artifact) :
    ∃ last, ReflTransGen (Turns artifact libraries super) (.start sub) last ∧
      Stops artifact libraries super last (answerOf (isSubclass libraries sub super loader)) := by
  rw [isSubclass, if_neg top]
  exact reaches_stops libraries super (.start sub) loader

theorem isSubclass_meets {artifact : Artifact} (libraries : List String) (sub super : ClassName) :
    LoaderM.Decides libraries (· = sub) (isSubclass libraries sub super : LoaderM artifact Bool)
      (super = .object ∨ ReflTransGen (artifact.Extends libraries) sub super) := by
  by_cases top : super = .object
  next =>
    rw [isSubclass, if_pos top]
    exact .yes (.inl top)
  next =>
    constructor
    · intro loader found answered
      obtain ⟨last, turns, stops⟩ := isSubclass_stops libraries sub top loader
      rw [answered] at stops
      simpa [top] using ((Explores.start artifact libraries sub super).run turns).found_iff stops
    · intro loader cause answered
      obtain ⟨last, turns, stops⟩ := isSubclass_stops libraries sub top loader
      rw [answered] at stops
      obtain ⟨name, above, broken⟩ := ((Explores.start artifact libraries sub super).run turns).exists_broken stops
      exact ⟨sub, name, rfl, above, broken⟩

/-- Whatever has been loaded before, a search takes finitely many turns. Its answer says whether the class is at the top
of all classes or can be reached in the supertypes, and it has no answer only if something it can reach is broken. -/
theorem isSubclass_decides (artifact : Artifact) (libraries : List String) (loader : Loader artifact)
    (sub super : ClassName) :
    (WellFounded fun later earlier => Turns artifact libraries super earlier later) ∧
    (super ≠ .object → ∃ last, ReflTransGen (Turns artifact libraries super) (.start sub) last ∧
      Stops artifact libraries super last (answerOf (isSubclass libraries sub super loader))) ∧
    (∀ found, answerOf (isSubclass libraries sub super loader) = .ok found →
      (found = true ↔ super = .object ∨ ReflTransGen (artifact.Extends libraries) sub super)) ∧
    ∀ cause, answerOf (isSubclass libraries sub super loader) = .error cause →
      ∃ name, ReflTransGen (artifact.Extends libraries) sub name ∧ artifact.Broken libraries name cause := by
  have decides : LoaderM.Decides libraries _ (isSubclass libraries sub super : LoaderM artifact Bool) _ :=
    isSubclass_meets libraries sub super
  refine ⟨turns_wellFounded artifact libraries super, ?_, ?_, ?_⟩
  · exact fun top => isSubclass_stops libraries sub top loader
  · exact fun found answered => decides.right answered
  · intro cause answered
    obtain ⟨origin, name, rfl, above, broken⟩ := decides.broken answered
    exact ⟨name, above, broken⟩

end Loader

end PhaseCheck
