import Mathlib.Algebra.Group.Nat.Defs
import PhaseCheck.Binary.Session
import PhaseCheck.Proofs.Steps

set_option autoImplicit false

namespace PhaseCheck

def weighted : List UInt8 → Nat
  | [] => 0
  | byte :: rest => byte.toNat * 256 ^ rest.length + weighted rest

theorem bigEndian_eq_weighted (bytes : List UInt8) : bigEndian bytes = weighted bytes := by
  have shifted (value : Nat) : bytes.foldl (fun value byte => value * 256 + byte.toNat) value =
      value * 256 ^ bytes.length + weighted bytes := by
    induction bytes generalizing value with
    | nil => simp [weighted]
    | cons byte rest ih =>
      rw [List.foldl_cons, ih, weighted, List.length_cons, Nat.pow_succ, Nat.add_mul, Nat.mul_assoc,
        Nat.mul_comm 256, Nat.add_assoc]
  rw [bigEndian, shifted, Nat.zero_mul, Nat.zero_add]

theorem weighted_lt (bytes : List UInt8) : weighted bytes < 256 ^ bytes.length := by
  induction bytes with
  | nil => exact Nat.one_pos
  | cons byte rest ih =>
    have digit : byte.toNat + 1 ≤ 256 := byte.toNat_lt
    calc weighted (byte :: rest) < byte.toNat * 256 ^ rest.length + 256 ^ rest.length := Nat.add_lt_add_left ih _
      _ = (byte.toNat + 1) * 256 ^ rest.length := (Nat.succ_mul ..).symm
      _ ≤ 256 * 256 ^ rest.length := Nat.mul_le_mul_right _ digit
      _ = 256 ^ (byte :: rest).length := by rw [List.length_cons, Nat.pow_succ, Nat.mul_comm]

def twosComplement (bytes : List UInt8) : Int :=
  if 2 * weighted bytes < 256 ^ bytes.length then weighted bytes else weighted bytes - (256 ^ bytes.length : Nat)

theorem toInt_ofNat_weighted {bytes : List UInt8} {bits : Nat} (wide : 256 ^ bytes.length = 2 ^ bits) :
    (BitVec.ofNat bits (weighted bytes)).toInt = twosComplement bytes := by
  have small : weighted bytes % 2 ^ bits = weighted bytes := Nat.mod_eq_of_lt (wide ▸ weighted_lt bytes)
  rw [BitVec.toInt_eq_toNat_cond, BitVec.toNat_ofNat, small, twosComplement, wide]

namespace NumberFormat

def isSigned : NumberFormat → Bool
  | .i8 | .i16 | .i32 | .i64 => true
  | .u8 | .u16 | .u32 | .u64 | .f32 | .f64 => false

def toInt : (format : NumberFormat) → format.Value → Int
  | .u8, value => UInt8.toNat value
  | .i8, value => Int8.toInt value
  | .u16, value => UInt16.toNat value
  | .i16, value => Int16.toInt value
  | .u32, value | .f32, value => UInt32.toNat value
  | .i32, value => Int32.toInt value
  | .u64, value | .f64, value => UInt64.toNat value
  | .i64, value => Int64.toInt value

def Denotes (format : NumberFormat) (value : format.Value) (bytes : List UInt8) : Prop :=
  bytes.length = format.width ∧
    format.toInt value = if format.isSigned then twosComplement bytes else weighted bytes

theorem width_pos (format : NumberFormat) : 0 < format.width := by
  cases format <;> decide

end NumberFormat

namespace Reader

variable {α β : Type} {cursor next : Cursor} {count : Nat}

theorem take_of_enough (enough : count ≤ cursor.remaining) :
    take count cursor = .ok (cursor.rest.take count) ⟨cursor.position + count, cursor.rest.drop count, none⟩ := by
  have full : (cursor.rest.take count).length = count := by rwa [List.length_take, Nat.min_eq_left]
  simp only [take, if_pos full]

theorem take_of_short (short : cursor.remaining < count) :
    take count cursor = .error (.unexpectedEnd cursor.position count) { cursor with last := none } := by
  have few : (cursor.rest.take count).length ≠ count := by
    rw [List.length_take]
    unfold Cursor.remaining at short
    omega
  simp only [take, if_neg few]

theorem return_of_ok {read : Reader α} {value : α} (ran : read cursor = .ok value next) (finish : α → β) :
    (do return finish (← read) : Reader β) cursor = .ok (finish value) next :=
  bind_of_ok ran

theorem return_of_error {read : Reader α} {cause : FormatError} (ran : read cursor = .error cause next)
    (finish : α → β) : (do return finish (← read) : Reader β) cursor = .error cause next :=
  bind_of_error ran

end Reader

namespace NumberFormat

open Reader

def mark (format : NumberFormat) (cursor : Cursor) : Option UInt8 :=
  if format.width = 1 then cursor.rest.head? else none

theorem read_of_short {format : NumberFormat} {cursor : Cursor} (short : cursor.remaining < format.width) :
    format.read cursor = .error (.unexpectedEnd cursor.position format.width) { cursor with last := none } := by
  have single (few : cursor.remaining < 1) :
      Reader.u8 cursor = .error (.unexpectedEnd cursor.position 1) { cursor with last := none } := by
    have nothing : cursor.rest = [] := List.length_eq_zero_iff.mp (Nat.lt_one_iff.mp few)
    simp only [Reader.u8, nothing]
  cases format with
  | u8 => exact single short
  | i8 => exact return_of_error (single short) _
  | u16 => exact return_of_error (take_of_short short) _
  | i16 => exact return_of_error (return_of_error (take_of_short short) _) _
  | u32 | f32 => exact return_of_error (take_of_short short) _
  | i32 => exact return_of_error (return_of_error (take_of_short short) _) _
  | u64 | f64 => exact return_of_error (take_of_short short) _
  | i64 => exact return_of_error (return_of_error (take_of_short short) _) _

def ofBytes : (format : NumberFormat) → List UInt8 → format.Value
  | .u8, bytes => (weighted bytes).toUInt8
  | .i8, bytes => (weighted bytes).toUInt8.toInt8
  | .u16, bytes => (weighted bytes).toUInt16
  | .i16, bytes => (weighted bytes).toUInt16.toInt16
  | .u32, bytes | .f32, bytes => (weighted bytes).toUInt32
  | .i32, bytes => (weighted bytes).toUInt32.toInt32
  | .u64, bytes | .f64, bytes => (weighted bytes).toUInt64
  | .i64, bytes => (weighted bytes).toUInt64.toInt64

theorem denotes_ofBytes {format : NumberFormat} {bytes : List UInt8} (length : bytes.length = format.width) :
    format.Denotes (format.ofBytes bytes) bytes := by
  refine ⟨length, ?_⟩
  have small := weighted_lt bytes
  rw [length] at small
  have wide : 256 ^ bytes.length = 2 ^ (8 * format.width) := by rw [length, Nat.pow_mul]
  have signed := toInt_ofNat_weighted wide
  cases format with
  | u8 => exact congrArg Nat.cast (Nat.mod_eq_of_lt small)
  | u16 => exact congrArg Nat.cast (Nat.mod_eq_of_lt small)
  | u32 | f32 => exact congrArg Nat.cast (Nat.mod_eq_of_lt small)
  | u64 | f64 => exact congrArg Nat.cast (Nat.mod_eq_of_lt small)
  | i8 | i16 | i32 | i64 => exact signed

theorem read_of_enough {format : NumberFormat} {cursor : Cursor} (enough : format.width ≤ cursor.remaining) :
    format.read cursor = .ok (format.ofBytes (cursor.rest.take format.width))
      ⟨cursor.position + format.width, cursor.rest.drop format.width, format.mark cursor⟩ := by
  have single (present : 1 ≤ cursor.remaining) : Reader.u8 cursor = .ok (weighted (cursor.rest.take 1)).toUInt8
      ⟨cursor.position + 1, cursor.rest.drop 1, cursor.rest.head?⟩ := by
    obtain ⟨byte, rest, split⟩ := List.exists_cons_of_length_pos present
    simp [Reader.u8, split, weighted, Nat.toUInt8]
  have number {α : Type} {width : Nat} (many : width ≤ cursor.remaining) (finish : Nat → α) :
      (do return finish (bigEndian (← take width)) : Reader α) cursor = .ok (finish (weighted (cursor.rest.take width)))
        ⟨cursor.position + width, cursor.rest.drop width, none⟩ := by
    rw [return_of_ok (take_of_enough many) fun bytes => finish (bigEndian bytes), bigEndian_eq_weighted]
  cases format with
  | u8 => exact single enough
  | i8 => exact return_of_ok (single enough) _
  | u16 => exact number enough _
  | i16 => exact return_of_ok (number enough _) _
  | u32 | f32 => exact number enough _
  | i32 => exact return_of_ok (number enough _) _
  | u64 | f64 => exact number enough _
  | i64 => exact return_of_ok (number enough _) _

end NumberFormat

namespace Reader

variable {cursor : Cursor}

theorem u16_of_short (short : cursor.remaining < 2) :
    u16 cursor = .error (.unexpectedEnd cursor.position 2) { cursor with last := none } :=
  @NumberFormat.read_of_short .u16 cursor short

theorem u16_of_enough (enough : 2 ≤ cursor.remaining) :
    ∃ length, u16 cursor = .ok length ⟨cursor.position + 2, cursor.rest.drop 2, none⟩ :=
  ⟨_, @NumberFormat.read_of_enough .u16 cursor enough⟩

end Reader

namespace Operation

def width? : Operation → Option Nat
  | .number format => some format.width
  | .take count | .skip count => some count
  | .text | .line | .putBack => none

def Denotes : (operation : Operation) → operation.Answer → List UInt8 → Prop
  | .number format, value, bytes => format.Denotes value bytes
  | .take _, taken, bytes => taken = bytes
  | .skip _, _, _ => True
  | .text, _, _ | .line, _, _ | .putBack, _, _ => False

def mark (operation : Operation) (cursor : Cursor) : Option UInt8 :=
  match operation with
  | .number format => format.mark cursor
  | _ => none

variable {operation : Operation} {cursor : Cursor} {width : Nat}

theorem read_of_short (known : operation.width? = some width) (short : cursor.remaining < width) :
    operation.read cursor = .error (.unexpectedEnd cursor.position width) { cursor with last := none } := by
  cases operation with
  | number format =>
    cases known
    exact NumberFormat.read_of_short short
  | take count =>
    cases known
    exact Reader.take_of_short short
  | skip count =>
    cases known
    exact bind_of_error (Reader.take_of_short short)
  | text | line | putBack => cases known

theorem read_of_enough (known : operation.width? = some width) (enough : width ≤ cursor.remaining) :
    ∃ value, operation.Denotes value (cursor.rest.take width) ∧ operation.read cursor =
      .ok value ⟨cursor.position + width, cursor.rest.drop width, operation.mark cursor⟩ := by
  cases operation with
  | number format =>
    cases known
    have length : (cursor.rest.take format.width).length = format.width := by
      rwa [List.length_take, Nat.min_eq_left]
    exact ⟨_, NumberFormat.denotes_ofBytes length, NumberFormat.read_of_enough enough⟩
  | take count =>
    cases known
    exact ⟨_, rfl, Reader.take_of_enough enough⟩
  | skip count =>
    cases known
    exact ⟨(), trivial, bind_of_ok (Reader.take_of_enough enough)⟩
  | text | line | putBack => cases known

end Operation

end PhaseCheck
