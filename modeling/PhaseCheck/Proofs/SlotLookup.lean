import Mathlib.Data.List.Nodup
import PhaseCheck.Proofs.SlotVec

set_option autoImplicit false

namespace PhaseCheck

section

variable {α : Type} {width : α → Nat}

theorem slotted_concat (offset : Nat) (elements : List α) (last : α) :
    slotted width offset (elements ++ [last]) =
      slotted width offset elements ++ [(offset + slotsOf width elements, last)] := by
  induction elements generalizing offset with
  | nil => rfl
  | cons element rest ih => simp [slotted, slotsOf, ih, Nat.add_assoc]

theorem slotsOf_concat (elements : List α) (last : α) :
    slotsOf width (elements ++ [last]) = slotsOf width elements + width last := by
  induction elements with
  | nil => simp [slotsOf]
  | cons element rest ih => simp [slotsOf, ih, Nat.add_assoc]

end

namespace SlotVec

variable {α : Type} {vec : SlotVec α} {offset : UInt64}

theorem get_eq_tooLarge_iff (ascending : Ascending vec.entries) :
    vec.get offset = .tooLarge ↔ ∀ entry ∈ vec.places, entry.1 < offset.toNat := by
  have located := get_located ascending offset
  simp only [places, toList, List.forall_mem_map, Array.mem_toList_iff, ← UInt64.lt_iff_toNat_lt]
  constructor
  · intro large
    rw [large] at located
    cases located with
    | tooLarge before => exact before
  · intro before
    generalize vec.get offset = slot at located
    cases located with
    | found stands => exact absurd (before _ stands) (UInt64.lt_irrefl _)
    | misaligned present beyond => exact absurd (before _ present) (UInt64.lt_asymm beyond)
    | tooLarge => rfl

theorem get_eq_misaligned_iff (ascending : Ascending vec.entries)
    (missed : ∀ entry ∈ vec.places, entry.1 ≠ offset.toNat) :
    vec.get offset = .misaligned ↔ ¬vec.get offset = .tooLarge := by
  cases answer : vec.get offset with
  | misaligned | tooLarge => simp
  | found element =>
    have stands := mem_places_iff.mpr ((get_eq_found_iff ascending).mp answer)
    exact absurd rfl (missed _ stands)

section

variable {width : α → UInt64} {start : UInt64} {elements : List α} {offsets : List UInt64}

def total (width : α → UInt64) (elements : List α) : Nat :=
  slotsOf (slotsBy width) elements

theorem slotsBy_pos (wide : ∀ element ∈ elements, 1 ≤ width element) :
    ∀ element ∈ elements, 0 < slotsBy width element :=
  fun element present => UInt64.le_iff_toNat_le.mp (wide element present)

theorem places_addAll (wide : ∀ element ∈ elements, 1 ≤ width element)
    (fits : start.toNat + total width elements < 2 ^ 64)
    (pushed : (startingAt start).addAll width elements = (offsets, vec)) :
    vec.places = slotted (slotsBy width) start.toNat elements := by
  rw [addAll_startingAt] at pushed
  cases pushed
  exact places_ofElements (slotsBy_pos wide) (Nat.le_of_lt fits)

theorem ascending_addAll (wide : ∀ element ∈ elements, 1 ≤ width element)
    (fits : start.toNat + total width elements < 2 ^ 64)
    (pushed : (startingAt start).addAll width elements = (offsets, vec)) : Ascending vec.entries := by
  rw [addAll_startingAt] at pushed
  cases pushed
  exact ofElements_ascending (slotsBy_pos wide) (Nat.le_of_lt fits)

theorem toNat_next_addAll (fits : start.toNat + total width elements < 2 ^ 64)
    (pushed : (startingAt start).addAll width elements = (offsets, vec)) :
    vec.next.toNat = start.toNat + total width elements := by
  rw [addAll_startingAt] at pushed
  cases pushed
  exact UInt64.toNat_ofNat_of_lt' fits

end

section

variable {α : Type} {width : α → Nat} {elements : List α} {start offset : Nat}

/-- Whether an offset lies behind the start of an element and before its end. -/
def Within (width : α → Nat) (offset : Nat) (entry : Nat × α) : Prop :=
  entry.1 < offset ∧ offset < entry.1 + width entry.2

theorem forall_slotted_concat_lt_iff {last : α} :
    (∀ entry ∈ slotted width start (elements ++ [last]), entry.1 < offset) ↔
      start + slotsOf width elements < offset := by
  rw [slotted_concat]
  constructor
  · intro before
    exact before _ (List.mem_append_right _ (List.mem_singleton.mpr rfl))
  · intro beyond entry present
    rcases List.mem_append.mp present with earlier | final
    · have ends := end_le_of_mem_slotted earlier
      omega
    · rwa [List.mem_singleton.mp final]

theorem exists_within_iff (missed : ∀ entry ∈ slotted width start elements, entry.1 ≠ offset) :
    (∃ entry ∈ slotted width start elements, Within width offset entry) ↔
      start ≤ offset ∧ offset < start + slotsOf width elements := by
  constructor
  · rintro ⟨entry, present, behind, before⟩
    have first := le_of_mem_slotted present
    have ends := end_le_of_mem_slotted present
    omega
  · rintro ⟨low, high⟩
    obtain ⟨entry, present, behind, before⟩ := exists_mem_slotted low high
    exact ⟨entry, present, Nat.lt_of_le_of_ne behind (missed entry present), before⟩

theorem forall_lt_slotted_iff (nonempty : elements ≠ []) :
    (∀ entry ∈ slotted width start elements, offset < entry.1) ↔ offset < start := by
  constructor
  · intro before
    cases elements with
    | nil => exact absurd rfl nonempty
    | cons element rest => exact before _ (List.mem_cons_self ..)
  · intro early entry present
    exact Nat.lt_of_lt_of_le early (le_of_mem_slotted present)

end

section

variable {width : α → UInt64} {start : UInt64} {elements : List α}

def ToldApart (width : α → UInt64) (vec : SlotVec α) (offset : UInt64) : Prop :=
  ((∀ entry ∈ vec.places, offset.toNat < entry.1) ∨
      (∃ entry ∈ vec.places, Within (slotsBy width) offset.toNat entry) →
    vec.get offset = .misaligned) ∧
  (vec.get offset = .tooLarge ↔ vec.next ≤ offset)

-- Where the last element ends does not show in what is found, only where it starts.
theorem get_misses_by_last_start (wide : ∀ element ∈ elements, 1 ≤ width element)
    (fits : start.toNat + total width elements < 2 ^ 64)
    (pushed : ((startingAt start).addAll width elements).2 = vec) {last : Nat × α}
    (final : vec.places.getLast? = some last) (missed : ∀ entry ∈ vec.places, entry.1 ≠ offset.toNat) :
    (vec.get offset = .misaligned ↔
      (∀ entry ∈ vec.places, offset.toNat < entry.1) ∨
        ∃ entry ∈ vec.places.dropLast, Within (slotsBy width) offset.toNat entry) ∧
    (vec.get offset = .tooLarge ↔
      vec.next ≤ offset ∨ Within (slotsBy width) offset.toNat last) ∧
    (ToldApart width vec offset ↔ ¬Within (slotsBy width) offset.toNat last) := by
  have run : (startingAt start).addAll width elements = (_, vec) := Prod.ext rfl pushed
  have placed := places_addAll wide fits run
  have ascending := ascending_addAll wide fits run
  have misaligned := get_eq_misaligned_iff ascending missed
  have large : vec.get offset = .tooLarge ↔ _ := get_eq_tooLarge_iff ascending
  have ends : vec.next ≤ offset ↔ start.toNat + total width elements ≤ offset.toNat := by
    rw [UInt64.le_iff_toNat_le, toNat_next_addAll fits run]
  rw [placed] at final missed large
  rcases List.eq_nil_or_concat elements with rfl | ⟨earlier, element, rfl⟩
  · cases final
  rw [List.concat_eq_append] at placed final missed large ends
  have before : (∀ entry ∈ slotted (slotsBy width) start.toNat (earlier ++ [element]), offset.toNat < entry.1) ↔ _ :=
    forall_lt_slotted_iff (by simp)
  have all := exists_within_iff missed
  rw [forall_slotted_concat_lt_iff] at large
  rw [total, slotsOf_concat] at ends
  rw [slotsOf_concat] at all
  rw [slotted_concat, List.getLast?_concat] at final
  cases final
  rw [slotted_concat] at missed
  have notLast := missed (_, element) (List.mem_append_right _ (List.mem_singleton.mpr rfl))
  have among := exists_within_iff fun entry present => missed entry (List.mem_append_left _ present)
  have inLast : Within (slotsBy width) offset.toNat (start.toNat + slotsOf (slotsBy width) earlier, element) ↔
      start.toNat + slotsOf (slotsBy width) earlier < offset.toNat ∧
        offset.toNat < start.toNat + slotsOf (slotsBy width) earlier + slotsBy width element := Iff.rfl
  rw [ToldApart, misaligned, large, placed, before, all, ends, slotted_concat, List.dropLast_concat, among, inLast]
  -- What is left is where the offset lies between the start, the last start and the last end.
  omega

theorem get_misses_by_last_start_inside :
    ∃ vec, ((startingAt 1).addAll id [1, 2]).2 = vec ∧ vec.next = 4 ∧ (∀ entry ∈ vec.places, entry.1 ≠ 3) ∧
      Within UInt64.toNat 3 (2, 2) ∧ vec.get 3 = .tooLarge ∧ ¬ToldApart id vec 3 := by
  have missed : ∀ entry ∈ ((startingAt 1).addAll id [1, 2]).2.places, entry.1 ≠ (3 : UInt64).toNat := by decide
  have inside : Within UInt64.toNat 3 (2, 2) := ⟨by decide, by decide⟩
  have facts := get_misses_by_last_start (by simp : ∀ width ∈ [(1 : UInt64), 2], 1 ≤ id width) (by decide) rfl rfl missed
  exact ⟨_, rfl, rfl, missed, inside, facts.2.1.mpr (.inr inside), fun told => facts.2.2.mp told inside⟩

-- The element takes up the slots one and two. The second slot is inside of it, but counts as too large.
theorem inside_last_tooLarge :
    ∃ vec, (startingAt 1).addAll (fun _ => 2) ["a"] = ([1], vec) ∧ vec.next = 3 ∧ vec.toList = [(1, "a")] ∧
      Within (fun _ => 2) 2 (1, "a") ∧ vec.get 2 = .tooLarge ∧ ¬ToldApart (fun _ => 2) vec 2 := by
  have inside : Within (fun _ => 2) 2 (1, "a") := ⟨by decide, by decide⟩
  have large : ((startingAt 1).addAll (fun _ => 2) ["a"]).2.get 2 = .tooLarge := by decide +kernel
  refine ⟨_, rfl, rfl, rfl, inside, large, ?_⟩
  intro told
  have misaligned := told.1 (.inr ⟨_, List.mem_singleton.mpr rfl, inside⟩)
  cases large.symm.trans misaligned

end

end SlotVec

end PhaseCheck
