import PhaseCheck.Hierarchy.Loader

set_option autoImplicit false

namespace PhaseCheck

structure SupertypeSearch where
  seen : List ClassName
  pending : List ClassName

namespace SupertypeSearch

def start (name : ClassName) : SupertypeSearch :=
  ⟨[name], [name]⟩

def enter (search : SupertypeSearch) (name : ClassName) : SupertypeSearch :=
  if name ∈ search.seen then
    search
  else
    ⟨name :: search.seen, name :: search.pending⟩

def enterAll (search : SupertypeSearch) (names : List ClassName) : SupertypeSearch :=
  names.foldl enter search

def size (catalogue : List ClassName) (search : SupertypeSearch) : Nat :=
  unvisited catalogue search.seen + search.pending.length

theorem enter_size_le {catalogue : List ClassName} (search : SupertypeSearch) {name : ClassName}
    (known : name ∈ catalogue) : (search.enter name).size catalogue ≤ search.size catalogue := by
  unfold enter
  split
  · exact Nat.le_refl _
  · rename_i new
    have fewer := unvisited_cons_lt known new
    simp only [size, List.length_cons]
    omega

theorem enterAll_size_le {catalogue : List ClassName} (search : SupertypeSearch) {names : List ClassName}
    (known : ∀ name ∈ names, name ∈ catalogue) :
    (search.enterAll names).size catalogue ≤ search.size catalogue := by
  induction names generalizing search with
  | nil => exact Nat.le_refl _
  | cons name rest ih =>
    have head := enter_size_le search (known name (List.mem_cons_self ..))
    have tail := ih (search.enter name) fun other present => known other (List.mem_cons_of_mem _ present)
    exact Nat.le_trans tail head

end SupertypeSearch

namespace Loader

variable {artifact : Artifact}

def reaches (libraries : List String) (goal : ClassName) (search : SupertypeSearch) : LoaderM artifact Bool :=
  match _pending : search.pending with
  | [] => return false
  | name :: rest =>
    if name = goal then
      return true
    else do
      match ← loadOptional libraries name with
      | none => reaches libraries goal { search with pending := rest }
      | some loaded =>
        reaches libraries goal ({ search with pending := rest }.enterAll loaded.file.supertypes)
termination_by search.size artifact.supertypes
decreasing_by
  · simp [SupertypeSearch.size, _pending]
  · refine Nat.lt_of_le_of_lt (SupertypeSearch.enterAll_size_le _ loaded.covered) ?_
    simp [SupertypeSearch.size, _pending]

def isSubclass (libraries : List String) (sub super : ClassName) : LoaderM artifact Bool :=
  if super = .object then
    return true
  else
    reaches libraries super (.start sub)

/-- Whether a value of one type can be used where the other is wanted. -/
def isAssignable (libraries : List String) (sub super : FieldType) : LoaderM artifact Bool :=
  if sub = super then
    return true
  else
    match sub, super with
    | .object sub, .object super => isSubclass libraries sub super
    | .array _, .object super => return super = .object ∨ super = .cloneable ∨ super = .serializable
    | .array sub, .array super =>
      if sub.isReference && super.isReference then
        isAssignable libraries sub super
      else
        return false
    | _, _ => return false

end Loader

end PhaseCheck
