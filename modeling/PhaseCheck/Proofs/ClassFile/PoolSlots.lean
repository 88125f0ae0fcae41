import Mathlib.Data.List.Chain
import PhaseCheck.Proofs.ClassFile.RoundTrip

set_option autoImplicit false

namespace PhaseCheck

namespace Pool

/-- The constants of a pool with a declared count, and what an index finds among them. -/
structure Fills (pool : Pool) (count : UInt16) : Prop where
  ordered : pool.toList.Pairwise fun entry other => entry.1 < other.1
  within : ∀ entry ∈ pool.toList, 1 ≤ entry.1.toNat ∧ entry.1.toNat < count.toNat
  starts : ∀ entry, pool.toList.head? = some entry → entry.1 = 1
  continues : pool.toList.IsChain fun entry other =>
    other.1.toNat = entry.1.toNat + if entry.2.isWide then 2 else 1
  ends : ∀ entry, pool.toList.getLast? = some entry →
    entry.1.toNat + (if entry.2.isWide then 2 else 1) = count.toNat
  empty : pool.toList = [] → count = 1
  found : ∀ index constant, pool.get index = .ok constant ↔ (index, constant) ∈ pool.toList
  missing : ∀ index, (∀ constant, (index, constant) ∉ pool.toList) → pool.get index = .error (.noConstant index)
  fails : ∀ index, pool.get index = .error (.noConstant index) ↔
    index = 0 ∨ count ≤ index ∨ ∃ entry ∈ pool.toList, entry.2.isWide = true ∧ index.toNat = entry.1.toNat + 1
  -- The offsets that are kept all fit into sixteen bits.
  untruncated : pool.constants.toList = pool.toList.map fun entry => (entry.1.toUInt64, entry.2)

section

variable {constants : List Constant} {count : UInt16}

theorem wordValue_injective :
    Function.Injective fun entry : UInt64 × Constant => (entry.1.toNat, entry.2) := by
  intro entry other same
  obtain ⟨offsets, constants⟩ := Prod.mk.inj same
  exact Prod.ext (UInt64.toNat_inj.mp offsets) constants

theorem fits_of_full (full : 1 + slotsOf Constant.room constants = count.toNat) :
    slotsOf Constant.room constants ≤ 65534 := by
  have bound := count.toNat_lt
  omega

theorem slotted_eq_map (full : 1 + slotsOf Constant.room constants = count.toNat) :
    slotted Constant.room 1 constants = (ofConstants constants).toList.map fun entry => (entry.1.toNat, entry.2) := by
  have kept : ∀ entry ∈ slotted Constant.room 1 constants,
      ((UInt64.ofNat entry.1).toUInt16.toNat, entry.2) = entry := by
    intro entry present
    have ends := end_le_of_mem_slotted present
    have positive := entry.2.room_pos
    have bound := count.toNat_lt
    have small : entry.1 < 2 ^ 16 := by omega
    rw [UInt64.toNat_toUInt16, UInt64.toNat_ofNat_of_lt' (Nat.lt_trans small (by decide)), Nat.mod_eq_of_lt small]
  rw [toList, ofConstants, SlotVec.toList_ofElements, List.map_map, List.map_map]
  exact (List.map_id' _).symm.trans (List.map_congr_left fun entry present => (kept entry present).symm)

theorem mem_toList_iff (full : 1 + slotsOf Constant.room constants = count.toNat) {index : UInt16} {constant : Constant} :
    (index, constant) ∈ (ofConstants constants).toList ↔ StandsAt constants index constant := by
  rw [StandsAt, slotted_eq_map full, List.mem_map]
  constructor
  · intro present
    exact ⟨_, present, rfl⟩
  · rintro ⟨entry, present, same⟩
    obtain ⟨sameIndex, sameConstant⟩ := Prod.mk.inj same
    rwa [← UInt16.toNat_inj.mp sameIndex, ← sameConstant]

theorem get_of_missing (fits : slotsOf Constant.room constants ≤ 65534) {index : UInt16}
    (missing : ∀ constant, ¬StandsAt constants index constant) :
    (ofConstants constants).get index = .error (.noConstant index) := by
  cases found : (ofConstants constants).get index with
  | ok constant => exact absurd ((get_ofConstants fits).mp found) (missing constant)
  | error cause =>
    unfold get at found
    split at found <;> cases found <;> rfl

theorem get_eq_error_iff (fits : slotsOf Constant.room constants ≤ 65534) {index : UInt16} :
    (ofConstants constants).get index = .error (.noConstant index) ↔
      ∀ constant, ¬StandsAt constants index constant := by
  constructor
  · intro failed constant stands
    rw [(get_ofConstants fits).mpr stands] at failed
    cases failed
  · exact get_of_missing fits

theorem stands_nowhere_iff {index : UInt16} :
    (∀ constant, ¬StandsAt constants index constant) ↔
      index.toNat = 0 ∨ 1 + slotsOf Constant.room constants ≤ index.toNat ∨
        ∃ entry ∈ slotted Constant.room 1 constants, entry.2.isWide = true ∧ index.toNat = entry.1 + 1 := by
  constructor
  · intro nowhere
    by_cases inside : 1 ≤ index.toNat ∧ index.toNat < 1 + slotsOf Constant.room constants
    next =>
      obtain ⟨entry, present, low, high⟩ := exists_mem_slotted inside.1 inside.2
      -- The index cannot be the first slot of this constant, so there is a second one.
      have notFirst : entry.1 ≠ index.toNat := by
        rintro same
        exact nowhere entry.2 (by rwa [StandsAt, ← same])
      rw [Constant.room] at high
      by_cases wide : entry.2.isWide
      next => exact .inr (.inr ⟨entry, present, wide, by rw [if_pos wide] at high; omega⟩)
      next =>
        rw [if_neg wide] at high
        omega
    next => omega
  · intro outside constant stands
    have first := le_of_mem_slotted stands
    have last := end_le_of_mem_slotted stands
    have positive := constant.room_pos
    simp only at first last
    rcases outside with zero | beyond | ⟨entry, present, wide, second⟩
    · omega
    · omega
    · have apart := apart_of_mem_slotted present stands
      rw [Constant.room, if_pos wide] at apart
      omega

theorem fills_ofConstants (full : 1 + slotsOf Constant.room constants = count.toNat) :
    (ofConstants constants).Fills count where
  ordered := by
    have apart := slotted_pairwise (fun constant (_ : constant ∈ constants) => constant.room_pos) 1
    rw [slotted_eq_map full, List.pairwise_map] at apart
    exact apart
  within entry present := by
    have stands := (mem_toList_iff full).mp present
    have first := le_of_mem_slotted stands
    have last := end_le_of_mem_slotted stands
    have positive := entry.2.room_pos
    simp only at first last
    omega
  starts entry first := by
    have head : (slotted Constant.room 1 constants).head? = some (entry.1.toNat, entry.2) := by
      rw [slotted_eq_map full, List.head?_map, first]
      rfl
    cases constants with
    | nil => cases head
    | cons constant rest =>
      have one : 1 = entry.1.toNat := congrArg Prod.fst (Option.some.inj head)
      exact UInt16.toNat_inj.mp one.symm
  continues := by
    have chain := @slotted_isChain _ Constant.room 1 constants
    rw [slotted_eq_map full, List.isChain_map] at chain
    simpa only [Constant.room] using chain
  ends entry last := by
    have final : (slotted Constant.room 1 constants).getLast? = some (entry.1.toNat, entry.2) := by
      rw [slotted_eq_map full, List.getLast?_map, last]
      rfl
    have total := getLast?_slotted final
    rwa [Constant.room, full] at total
  empty none := by
    have nothing : slotted Constant.room 1 constants = [] := by rw [slotted_eq_map full, none, List.map_nil]
    cases constants with
    | nil => exact UInt16.toNat_inj.mp full.symm
    | cons constant rest => cases nothing
  found index constant := (get_ofConstants (fits_of_full full)).trans (mem_toList_iff full).symm
  missing index absent :=
    get_of_missing (fits_of_full full) fun constant stands => absent constant ((mem_toList_iff full).mpr stands)
  fails index := by
    rw [get_eq_error_iff (fits_of_full full), stands_nowhere_iff, full, slotted_eq_map full]
    simp only [List.mem_map, exists_exists_and_eq_and]
    rw [UInt16.le_iff_toNat_le, ← UInt16.toNat_inj]
    rfl
  untruncated := by
    have fits : 1 + slotsOf Constant.room constants ≤ 2 ^ 64 := by
      have bound := count.toNat_lt
      omega
    have numbers := slotted_eq_map full
    rw [← SlotVec.places_ofElements (fun constant _ => constant.room_pos) fits] at numbers
    apply List.map_injective_iff.mpr wordValue_injective
    rw [List.map_map]
    exact numbers

end

theorem fill_ok {count : UInt16} {vec result : SlotVec Constant} {cursor final : Cursor}
    (filled : fill count vec cursor = .ok result final) :
    ∃ constants, result = (vec.addAll Constant.slots constants).2 ∧
      result.next.toNat = vec.next.toNat + slotsOf Constant.room constants := by
  induction vec using fill.induct count generalizing cursor with
  | case1 vec more ih =>
    rw [fill, dif_pos more] at filled
    obtain ⟨constant, middle, _, filled⟩ := steps_of_bind_ok filled
    obtain ⟨constants, same, reached⟩ := ih constant filled
    refine ⟨constant :: constants, same, ?_⟩
    rw [reached, toNat_next_push more, constant.toNat_slots, slotsOf, Nat.add_assoc]
  | case2 vec full =>
    rw [fill, dif_neg full] at filled
    cases filled
    exact ⟨[], rfl, rfl⟩

theorem read_ok {cursor final : Cursor} {pool : Pool} (parsed : Pool.read cursor = .ok pool final) :
    ∃ count behind constants, Reader.u16 cursor = .ok count behind ∧ pool = ofConstants constants ∧
      1 + slotsOf Constant.room constants = count.toNat := by
  obtain ⟨count, behind, counted, parsed⟩ := steps_of_bind_ok parsed
  obtain ⟨vec, middle, filled, parsed⟩ := steps_of_bind_ok parsed
  obtain ⟨constants, same, reached⟩ := fill_ok filled
  split at parsed
  next full =>
    cases parsed
    refine ⟨count, behind, constants, counted, ?_, ?_⟩
    · rw [same, addAll_slots]
    · rw [full, UInt16.toNat_toUInt64] at reached
      exact reached.symm
  next => cases parsed

theorem read_fills {cursor final : Cursor} {pool : Pool} (parsed : Pool.read cursor = .ok pool final) :
    ∃ count behind, Reader.u16 cursor = .ok count behind ∧ pool.Fills count := by
  obtain ⟨count, behind, constants, counted, rfl, full⟩ := read_ok parsed
  exact ⟨count, behind, counted, fills_ofConstants full⟩

def mixedConstants : List Constant :=
  [.long 1, .text "a", .double 2]

def mixedPool : List UInt8 :=
  [0, 6, 5, 0, 0, 0, 0, 0, 0, 0, 1, 1, 0, 1, 97, 6, 0, 0, 0, 0, 0, 0, 0, 2]

theorem read_fills_mixed :
    ∃ pool final, Pool.read (.ofBytes mixedPool) = .ok pool final ∧ pool.Fills 6 ∧
      pool.toList.map Prod.fst = [1, 3, 4] := by
  have encodable : ∀ constant ∈ mixedConstants, constant.Encodable := by
    simp [mixedConstants, Constant.Encodable]
    decide
  obtain ⟨final, parsed⟩ := Pool.reads encodable (by decide) 0 [] none
  have spelled : bigEndianBytes 2 (1 + slotsOf Constant.room mixedConstants) ++ mixedConstants.flatMap Constant.bytes ++ [] =
      mixedPool := by decide
  rw [spelled] at parsed
  obtain ⟨count, behind, counted, fills⟩ := read_fills parsed
  have six : Reader.u16 (.ofBytes mixedPool) = .ok 6 ⟨2, mixedPool.drop 2, none⟩ := rfl
  cases six.symm.trans counted
  exact ⟨_, _, parsed, fills, by decide⟩

end Pool

end PhaseCheck
