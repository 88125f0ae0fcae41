import Mathlib.Data.List.Induction
import PhaseCheck.Proofs.Binary.Reads

set_option autoImplicit false

namespace PhaseCheck

theorem bigEndianBytes_bigEndian (bytes : List UInt8) : bigEndianBytes bytes.length (bigEndian bytes) = bytes := by
  induction bytes using List.reverseRecOn with
  | nil => rfl
  | append_singleton front byte ih =>
    have value : bigEndian (front ++ [byte]) = bigEndian front * 256 + byte.toNat := by simp [bigEndian]
    have small := byte.toNat_lt
    have high : (bigEndian front * 256 + byte.toNat) / 256 = bigEndian front := by omega
    have low : (bigEndian front * 256 + byte.toNat).toUInt8 = byte := by
      rw [← UInt8.toNat_inj, Nat.toUInt8, UInt8.toNat_ofNat']
      omega
    rw [List.length_append, List.length_singleton, bigEndianBytes, value, high, low, ih]

theorem bigEndianBytes_mod (width value : Nat) :
    bigEndianBytes width (value % 256 ^ width) = bigEndianBytes width value := by
  have again := bigEndianBytes_bigEndian (bigEndianBytes width value)
  rwa [bigEndian_bigEndianBytes, length_bigEndianBytes] at again

/-- From one place to another, a cursor moves over these bytes. -/
structure Cursor.Passes (cursor : Cursor) (bytes : List UInt8) (final : Cursor) : Prop where
  rest_eq : cursor.rest = bytes ++ final.rest
  position_eq : final.position = cursor.position + bytes.length

theorem Cursor.Passes.trans {cursor middle final : Cursor} {bytes more : List UInt8}
    (first : cursor.Passes bytes middle) (second : middle.Passes more final) :
    cursor.Passes (bytes ++ more) final where
  rest_eq := by rw [first.rest_eq, second.rest_eq, List.append_assoc]
  position_eq := by rw [second.position_eq, first.position_eq, List.length_append, Nat.add_assoc]

namespace Reader

variable {α β γ δ : Type}

theorem passes_of_take {count : Nat} {cursor final : Cursor} {bytes : List UInt8}
    (ran : take count cursor = .ok bytes final) : bytes.length = count ∧ cursor.Passes bytes final := by
  unfold take at ran
  simp only at ran
  split at ran
  next full =>
    cases ran
    exact ⟨full, (List.take_append_drop count cursor.rest).symm, by rw [full]⟩
  next => cases ran

theorem passes_of_skip {count : Nat} {cursor final : Cursor} (ran : skip count cursor = .ok () final) :
    ∃ bytes, bytes.length = count ∧ cursor.Passes bytes final := by
  obtain ⟨bytes, middle, taken, ran⟩ := steps_of_bind_ok ran
  cases ran
  exact ⟨bytes, passes_of_take taken⟩

def ReadsOnly (read : Reader α) (bytesOf : β → List UInt8) (valueOf : β → α) : Prop :=
  ∀ ⦃cursor value final⦄, read cursor = .ok value final →
    ∃ item, valueOf item = value ∧ cursor.Passes (bytesOf item) final

namespace ReadsOnly

variable {read : Reader α} {bytesOf : β → List UInt8} {valueOf : β → α}

theorem andReturn (only : ReadsOnly read bytesOf valueOf) (finish : α → γ) :
    ReadsOnly (do return finish (← read)) bytesOf fun item => finish (valueOf item) := by
  intro cursor value final ran
  obtain ⟨first, middle, head, ran⟩ := steps_of_bind_ok ran
  cases ran
  obtain ⟨item, rfl, passes⟩ := only head
  exact ⟨item, rfl, passes⟩

theorem exchange {otherBytes : γ → List UInt8} {otherValue : γ → α} (only : ReadsOnly read bytesOf valueOf)
    (convert : β → γ) (sameBytes : ∀ item, otherBytes (convert item) = bytesOf item)
    (sameValue : ∀ item, otherValue (convert item) = valueOf item) : ReadsOnly read otherBytes otherValue := by
  intro cursor value final ran
  obtain ⟨item, rfl, passes⟩ := only ran
  exact ⟨convert item, sameValue item, by rwa [sameBytes]⟩

theorem pair {next : Reader δ} {moreOf : γ → List UInt8} {resultOf : γ → δ} (only : ReadsOnly read bytesOf valueOf)
    (after : ReadsOnly next moreOf resultOf) :
    ReadsOnly (do let _ ← read; next) (fun item : β × γ => bytesOf item.1 ++ moreOf item.2)
      fun item => resultOf item.2 := by
  intro cursor value final ran
  obtain ⟨first, middle, head, ran⟩ := steps_of_bind_ok ran
  obtain ⟨item, _, passes⟩ := only head
  obtain ⟨other, same, passesMore⟩ := after ran
  exact ⟨(item, other), same, passes.trans passesMore⟩

theorem byte : ReadsOnly u8 (fun value => [value]) id := by
  rintro ⟨position, rest, last⟩ value final ran
  cases rest with
  | nil => cases ran
  | cons first rest =>
    cases ran
    exact ⟨value, rfl, rfl, rfl⟩

theorem number (width : Nat) (finish : Nat → α) :
    ReadsOnly (do return finish (bigEndian (← take width))) (bigEndianBytes width) finish := by
  intro cursor value final ran
  obtain ⟨bytes, middle, taken, ran⟩ := steps_of_bind_ok ran
  cases ran
  obtain ⟨full, passes⟩ := passes_of_take taken
  refine ⟨bigEndian bytes, rfl, ?_⟩
  rwa [← full, bigEndianBytes_bigEndian]

theorem short : ReadsOnly u16 (fun value => bigEndianBytes 2 value.toNat) id :=
  (number 2 Nat.toUInt16).exchange Nat.toUInt16 (bigEndianBytes_mod 2) fun _ => rfl

theorem int : ReadsOnly u32 (fun value => bigEndianBytes 4 value.toNat) id :=
  (number 4 Nat.toUInt32).exchange Nat.toUInt32 (bigEndianBytes_mod 4) fun _ => rfl

theorem signedShort : ReadsOnly i16 (fun value : Int16 => bigEndianBytes 2 value.toUInt16.toNat) id :=
  (short.andReturn UInt16.toInt16).exchange UInt16.toInt16 (fun _ => rfl) fun _ => rfl

theorem signedInt : ReadsOnly i32 (fun value : Int32 => bigEndianBytes 4 value.toUInt32.toNat) id :=
  (int.andReturn UInt32.toInt32).exchange UInt32.toInt32 (fun _ => rfl) fun _ => rfl

theorem times (only : ReadsOnly read bytesOf valueOf) {count : Nat} {cursor final : Cursor} {values : List α}
    (ran : Reader.times read count cursor = .ok values final) :
    ∃ items : List β, items.length = count ∧ items.map valueOf = values ∧
      cursor.Passes (items.flatMap bytesOf) final := by
  induction count generalizing cursor values with
  | zero =>
    cases ran
    exact ⟨[], rfl, rfl, rfl, rfl⟩
  | succ count ih =>
    obtain ⟨value, middle, head, ran⟩ := steps_of_bind_ok ran
    obtain ⟨others, later, tail, ran⟩ := steps_of_bind_ok ran
    cases ran
    obtain ⟨item, rfl, passes⟩ := only head
    obtain ⟨items, rfl, rfl, passesMore⟩ := ih tail
    exact ⟨item :: items, rfl, rfl, passes.trans passesMore⟩

end ReadsOnly

end Reader

end PhaseCheck
