import Mathlib.Algebra.Group.Nat.Defs
import Mathlib.Data.List.Pairwise
import PhaseCheck.SlotVec

set_option autoImplicit false

namespace PhaseCheck

/-- Elements with the offsets at which they start, the first at `offset`. -/
def slotted {α : Type} (width : α → Nat) (offset : Nat) : List α → List (Nat × α)
  | [] => []
  | element :: rest => (offset, element) :: slotted width (offset + width element) rest

section

variable {α : Type} {width : α → Nat}

theorem le_of_mem_slotted {offset : Nat} {elements : List α} {entry : Nat × α}
    (present : entry ∈ slotted width offset elements) : offset ≤ entry.1 := by
  induction elements generalizing offset with
  | nil => cases present
  | cons element rest ih =>
    rcases List.mem_cons.mp present with rfl | later
    · exact Nat.le_refl _
    · exact Nat.le_trans (Nat.le_add_right ..) (ih later)

theorem mem_of_mem_slotted {offset : Nat} {elements : List α} {entry : Nat × α}
    (present : entry ∈ slotted width offset elements) : entry.2 ∈ elements := by
  induction elements generalizing offset with
  | nil => cases present
  | cons element rest ih =>
    rcases List.mem_cons.mp present with rfl | later
    · exact List.mem_cons_self ..
    · exact List.mem_cons_of_mem _ (ih later)

theorem slotted_pairwise {elements : List α} (positive : ∀ element ∈ elements, 0 < width element) (offset : Nat) :
    (slotted width offset elements).Pairwise fun entry other => entry.1 < other.1 := by
  induction elements generalizing offset with
  | nil => exact .nil
  | cons element rest ih =>
    have ⟨wide, others⟩ := List.forall_mem_cons.mp positive
    refine List.pairwise_cons.mpr ⟨?_, ih others _⟩
    intro other later
    have start := le_of_mem_slotted later
    simp only
    omega

def slotsOf (width : α → Nat) : List α → Nat
  | [] => 0
  | element :: rest => width element + slotsOf width rest

theorem slotted_isChain (offset : Nat) (elements : List α) :
    (slotted width offset elements).IsChain fun entry other => other.1 = entry.1 + width entry.2 := by
  induction elements generalizing offset with
  | nil => exact .nil
  | cons element rest ih =>
    have tail := ih (offset + width element)
    cases rest with
    | nil => exact .singleton _
    | cons next others => exact .cons_cons rfl tail

theorem getLast?_slotted {offset : Nat} {elements : List α} {entry : Nat × α}
    (last : (slotted width offset elements).getLast? = some entry) :
    entry.1 + width entry.2 = offset + slotsOf width elements := by
  induction elements generalizing offset with
  | nil => cases last
  | cons element rest ih =>
    cases rest with
    | nil =>
      cases last
      rfl
    | cons next others =>
      have tail := ih last
      simp only [slotsOf] at tail ⊢
      omega

theorem end_le_of_mem_slotted {offset : Nat} {elements : List α} {entry : Nat × α}
    (present : entry ∈ slotted width offset elements) :
    entry.1 + width entry.2 ≤ offset + slotsOf width elements := by
  induction elements generalizing offset with
  | nil => cases present
  | cons element rest ih =>
    simp only [slotsOf]
    rcases List.mem_cons.mp present with rfl | later
    · simp only
      omega
    · have tail := ih later
      omega

theorem apart_of_mem_slotted {offset : Nat} {elements : List α} {entry other : Nat × α}
    (present : entry ∈ slotted width offset elements) (also : other ∈ slotted width offset elements) :
    other.1 ≤ entry.1 ∨ entry.1 + width entry.2 ≤ other.1 := by
  induction elements generalizing offset with
  | nil => cases present
  | cons element rest ih =>
    rcases List.mem_cons.mp present with rfl | later
    · rcases List.mem_cons.mp also with rfl | after
      · exact .inl (Nat.le_refl _)
      · exact .inr (le_of_mem_slotted after)
    · rcases List.mem_cons.mp also with rfl | after
      · exact .inl (Nat.le_trans (Nat.le_add_right ..) (le_of_mem_slotted later))
      · exact ih later after

theorem exists_mem_slotted {offset index : Nat} {elements : List α} (low : offset ≤ index)
    (high : index < offset + slotsOf width elements) :
    ∃ entry ∈ slotted width offset elements, entry.1 ≤ index ∧ index < entry.1 + width entry.2 := by
  induction elements generalizing offset with
  | nil =>
    simp only [slotsOf] at high
    omega
  | cons element rest ih =>
    by_cases within : index < offset + width element
    next => exact ⟨_, List.mem_cons_self .., low, within⟩
    next =>
      simp only [slotsOf] at high
      have beyond : offset + width element ≤ index := by omega
      obtain ⟨entry, present, around⟩ := ih beyond (by omega)
      exact ⟨entry, List.mem_cons_of_mem _ present, around⟩

end

namespace SlotVec

variable {α : Type}

inductive Located (entries : Array (UInt64 × α)) (offset : UInt64) : Slot α → Prop where
  | found {element : α} (stands : (offset, element) ∈ entries) : Located entries offset (.found element)
  | misaligned {entry : UInt64 × α} (present : entry ∈ entries) (beyond : offset < entry.1)
      (nowhere : ∀ entry ∈ entries, entry.1 ≠ offset) : Located entries offset .misaligned
  | tooLarge (before : ∀ entry ∈ entries, entry.1 < offset) : Located entries offset .tooLarge

def Ascending (entries : Array (UInt64 × α)) : Prop :=
  ∀ first second (bound : second < entries.size) (order : first < second), entries[first].1 < entries[second].1

theorem ascending_of_pairwise {entries : List (UInt64 × α)}
    (ordered : entries.Pairwise fun entry other => entry.1 < other.1) : Ascending entries.toArray := by
  intro first second bound order
  exact List.pairwise_iff_getElem.mp ordered first second _ _ order

section

variable {entries : Array (UInt64 × α)} {offset : UInt64}

-- Entries before `low` start before the offset and entries from `high` on start after it.
theorem search_located (ascending : Ascending entries) (low high : Nat) (within : high ≤ entries.size)
    (order : low ≤ high) (before : ∀ index (bound : index < entries.size), index < low → entries[index].1 < offset)
    (after : ∀ index (bound : index < entries.size), high ≤ index → offset < entries[index].1) :
    Located entries offset (search entries offset low high within) := by
  induction low, high, within using search.induct entries offset with
  | case1 low high within left middle inside element atMiddle =>
    rw [search, dif_pos left]
    simp only [middle, atMiddle, ↓reduceIte] at inside ⊢
    exact .found (atMiddle ▸ Array.getElem_mem inside)
  | case2 low high within left middle inside start element atMiddle other less ih =>
    rw [search, dif_pos left]
    simp only [middle] at atMiddle ih
    simp only [atMiddle, other, less, ↓reduceIte]
    refine ih (by omega) (fun index bound early => ?_) after
    -- Whatever stands before the middle starts before it does.
    rcases Nat.lt_succ_iff_lt_or_eq.mp early with earlier | rfl
    · exact UInt64.lt_trans (ascending _ _ inside earlier) (by simpa [middle, atMiddle] using less)
    · simpa [atMiddle] using less
  | case3 low high within left middle inside start element atMiddle other notLess ih =>
    rw [search, dif_pos left]
    simp only [middle] at atMiddle ih
    simp only [atMiddle, other, notLess, ↓reduceIte]
    refine ih (by omega) before (fun index bound late => ?_)
    have beyond : offset < start := UInt64.lt_of_le_of_ne (UInt64.not_lt.mp notLess) other
    rcases Nat.lt_or_eq_of_le late with later | rfl
    · exact UInt64.lt_trans (by simpa [middle, atMiddle] using beyond) (ascending _ _ bound later)
    · simpa [atMiddle] using beyond
  | case4 high within done =>
    -- Nothing is left and everything stands before the offset.
    rw [search, dif_neg done, if_pos rfl]
    refine .tooLarge fun entry present => ?_
    obtain ⟨index, bound, rfl⟩ := Array.getElem_of_mem present
    exact before index bound bound
  | case5 low high within done notAll =>
    rw [search, dif_neg done, if_neg notAll]
    have left : low < entries.size := by omega
    refine .misaligned (Array.getElem_mem left) (after low left (by omega)) fun entry present => ?_
    obtain ⟨index, bound, rfl⟩ := Array.getElem_of_mem present
    by_cases early : index < low
    · exact UInt64.ne_of_lt (before index bound early)
    · exact (UInt64.ne_of_lt (after index bound (by omega))).symm

theorem eq_of_mem (ascending : Ascending entries) {element other : α} (stands : (offset, element) ∈ entries)
    (also : (offset, other) ∈ entries) : element = other := by
  obtain ⟨first, firstBound, atFirst⟩ := Array.getElem_of_mem stands
  obtain ⟨second, secondBound, atSecond⟩ := Array.getElem_of_mem also
  -- Two different entries of one offset would break the order.
  rcases Nat.lt_trichotomy first second with before | rfl | after
  · have order := ascending first second secondBound before
    simp [atFirst, atSecond] at order
  · rw [atFirst] at atSecond
    exact congrArg Prod.snd atSecond
  · have order := ascending second first firstBound after
    simp [atFirst, atSecond] at order

end

section

variable {vec : SlotVec α}

theorem get_located (ascending : Ascending vec.entries) (offset : UInt64) :
    Located vec.entries offset (vec.get offset) :=
  search_located ascending 0 vec.entries.size (Nat.le_refl _) (Nat.zero_le _) (by simp) (by omega)

theorem get_eq_found_iff (ascending : Ascending vec.entries) {offset : UInt64} {element : α} :
    vec.get offset = .found element ↔ (offset, element) ∈ vec.toList := by
  rw [toList, Array.mem_toList_iff]
  have located := get_located ascending offset
  constructor
  · intro found
    rw [found] at located
    cases located with
    | found stands => exact stands
  · intro stands
    generalize vec.get offset = slot at located
    cases located with
    | found also => rw [eq_of_mem ascending stands also]
    | misaligned _ _ nowhere => exact absurd rfl (nowhere _ stands)
    | tooLarge before => exact absurd (before _ stands) (UInt64.lt_irrefl _)

end

section

variable {vec : SlotVec α} {offset : UInt64}

def places (vec : SlotVec α) : List (Nat × α) :=
  vec.toList.map fun entry => (entry.1.toNat, entry.2)

theorem mem_places_iff {element : α} : (offset.toNat, element) ∈ vec.places ↔ (offset, element) ∈ vec.toList := by
  rw [places, List.mem_map]
  constructor
  · rintro ⟨entry, present, same⟩
    obtain ⟨sameOffset, sameElement⟩ := Prod.mk.inj same
    rwa [← UInt64.toNat_inj.mp sameOffset, ← sameElement]
  · intro present
    exact ⟨_, present, rfl⟩

end

section

variable {width : α → Nat} {start : Nat} {elements : List α}

-- Offsets are reduced to words one by one, whether or not they fit.
def ofElements (width : α → Nat) (start : Nat) (elements : List α) : SlotVec α :=
  ⟨((slotted width start elements).map fun entry => (.ofNat entry.1, entry.2)).toArray,
    .ofNat (start + slotsOf width elements)⟩

theorem toList_ofElements (width : α → Nat) (start : Nat) (elements : List α) :
    (ofElements width start elements).toList =
      (slotted width start elements).map fun entry => (UInt64.ofNat entry.1, entry.2) := rfl

theorem toNat_of_mem_slotted (wide : ∀ element ∈ elements, 0 < width element)
    (fits : start + slotsOf width elements ≤ 2 ^ 64) {entry : Nat × α}
    (present : entry ∈ slotted width start elements) : (UInt64.ofNat entry.1).toNat = entry.1 := by
  have ends := end_le_of_mem_slotted present
  have positive := wide entry.2 (mem_of_mem_slotted present)
  have small : entry.1 < 2 ^ 64 := by omega
  exact UInt64.toNat_ofNat_of_lt' small

theorem places_ofElements (wide : ∀ element ∈ elements, 0 < width element)
    (fits : start + slotsOf width elements ≤ 2 ^ 64) :
    (ofElements width start elements).places = slotted width start elements := by
  rw [places, toList_ofElements, List.map_map]
  refine (List.map_congr_left fun entry present => ?_).trans (List.map_id' _)
  rw [Function.comp_apply, toNat_of_mem_slotted wide fits present]

theorem ofElements_ascending (wide : ∀ element ∈ elements, 0 < width element)
    (fits : start + slotsOf width elements ≤ 2 ^ 64) : Ascending (ofElements width start elements).entries := by
  have ordered := slotted_pairwise wide start
  rw [← places_ofElements wide fits, places, List.pairwise_map] at ordered
  exact ascending_of_pairwise (ordered.imp UInt64.lt_iff_toNat_lt.mpr)

end

def slotsBy (width : α → UInt64) (element : α) : Nat :=
  (width element).toNat

def addAll (width : α → UInt64) (vec : SlotVec α) : List α → List UInt64 × SlotVec α
  | [] => ([], vec)
  | element :: rest =>
    let added := vec.add (width element) element
    let others := addAll width added.2 rest
    (added.1 :: others.1, others.2)

theorem addAll_eq (width : α → UInt64) {vec : SlotVec α} {start : Nat} (begins : vec.next = .ofNat start)
    (elements : List α) :
    vec.addAll width elements =
      ((ofElements (slotsBy width) start elements).toList.map Prod.fst,
        ⟨vec.entries ++ (ofElements (slotsBy width) start elements).entries,
          (ofElements (slotsBy width) start elements).next⟩) := by
  induction elements generalizing vec start with
  | nil => simp [addAll, ofElements, toList, slotted, slotsOf, ← begins]
  | cons element rest ih =>
    have next : (vec.push (width element) element).next = .ofNat (start + (width element).toNat) := by
      rw [push, begins, UInt64.ofNat_add, UInt64.ofNat_toNat]
    simp only [addAll, add, ih next]
    simp [push, begins, ofElements, toList, slotted, slotsOf, slotsBy, Nat.add_assoc]

theorem addAll_startingAt (width : α → UInt64) (start : UInt64) (elements : List α) :
    (startingAt start).addAll width elements =
      ((ofElements (slotsBy width) start.toNat elements).toList.map Prod.fst,
        ofElements (slotsBy width) start.toNat elements) := by
  rw [addAll_eq width (UInt64.ofNat_toNat.symm : (startingAt start).next = _)]
  simp [startingAt]

end SlotVec

end PhaseCheck
