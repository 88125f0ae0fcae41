import PhaseCheck.Proofs.Binary.Stability
import PhaseCheck.ClassFile

set_option autoImplicit false

namespace PhaseCheck

open Reader

theorem Version.read_stable : Stable Version.read :=
  .andThen .u16 fun _ => .andThen .u16 fun _ => .ifElse (.done _) (.failed _)

theorem Constant.read_stable (index : UInt16) : Stable (Constant.read index) := by
  -- One case for each tag, in the order of the tags, and one for the bytes that are none.
  refine .andThen .u8 fun tag => ?_
  split
  · exact Stable.text.andReturn _
  · exact Stable.i32.andReturn _
  · exact Stable.u32.andReturn _
  · exact Stable.i64.andReturn _
  · exact Stable.u64.andReturn _
  · exact Stable.u16.andReturn _
  · exact Stable.u16.andReturn _
  · exact .andThen .u16 fun _ => Stable.u16.andReturn _
  · exact .andThen .u16 fun _ => Stable.u16.andReturn _
  · exact .andThen .u16 fun _ => Stable.u16.andReturn _
  · exact .andThen .u16 fun _ => Stable.u16.andReturn _
  · exact .andThen .u8 fun _ => .andThen (.lifted _) fun _ => Stable.u16.andReturn _
  · exact Stable.u16.andReturn _
  · exact .andThen .u16 fun _ => Stable.u16.andReturn _
  · exact .failed _

theorem Pool.fill_stable (count : UInt16) (constants : SlotVec Constant) : Stable (Pool.fill count constants) := by
  induction constants using Pool.fill.induct count with
  | case1 constants more ih =>
    rw [Pool.fill, dif_pos more]
    exact .andThen (Constant.read_stable _) ih
  | case2 constants full =>
    rw [Pool.fill, dif_neg full]
    exact .done constants

theorem Pool.read_stable : Stable Pool.read :=
  .andThen .u16 fun _ => .andThen (Pool.fill_stable _ _) fun _ => .ifElse (.done _) (.failed _)

section

variable (pool : Pool)

theorem Attribute.read_stable : Stable (Attribute.read pool) :=
  .andThen .u16 fun _ => .andThen (.lifted _) fun _ => .andThen .u32 fun _ => (Stable.take _).andReturn _

theorem Attribute.readAll_stable : Stable (Attribute.readAll pool) :=
  (Attribute.read_stable pool).counted

theorem Handler.read_stable : Stable (Handler.read pool) :=
  .andThen .u16 fun _ => .andThen .u16 fun _ => .andThen .u16 fun _ => .andThen .u16 fun _ =>
    .ifElse (.done _) ((Stable.lifted _).andReturn _)

theorem Body.read_stable : Stable (Body.read pool) :=
  .andThen .u16 fun _ => .andThen .u16 fun _ => .andThen .u32 fun length => .andThen (.take length.toNat) fun _ =>
    .andThen (Handler.read_stable pool).counted fun _ => .andThen (Attribute.readAll_stable pool) fun _ =>
      (Stable.lifted _).andReturn _

theorem Field.read_stable (owner : ClassName) : Stable (Field.read pool owner) :=
  .andThen .u16 fun _ => .andThen .u16 fun _ => .andThen (.lifted _) fun _ => .andThen .u16 fun _ =>
    .andThen (.lifted _) fun _ => .andThen (.lifted _) fun _ => (Attribute.readAll_stable pool).andReturn _

theorem Method.read_stable (owner : ClassName) : Stable (Method.read pool owner) :=
  .andThen .u16 fun _ => .andThen .u16 fun _ => .andThen (.lifted _) fun _ => .andThen .u16 fun _ =>
    .andThen (.lifted _) fun _ => .andThen (.lifted _) fun _ => .andThen (Attribute.readAll_stable pool) fun _ =>
      (Stable.lifted _).andReturn _

theorem ClassFile.readSuperclass_stable (name : ClassName) : Stable (ClassFile.readSuperclass pool name) :=
  .andThen .u16 fun _ => .ifElse ((Stable.lifted _).andReturn _) (.ifElse (.done _) (.failed _))

end

theorem ClassFile.readMagic_stable : Stable ClassFile.readMagic :=
  .andThen .u32 fun _ => .ifElse (.failed _) (.done _)

theorem ClassFile.read_stable : Stable ClassFile.read := by
  refine .andThen readMagic_stable fun _ => .andThen Version.read_stable fun _ => ?_
  refine .andThen Pool.read_stable fun pool => ?_
  refine .andThen .u16 fun _ => .andThen .u16 fun _ => .andThen (.lifted _) fun name => ?_
  refine .andThen (readSuperclass_stable pool name) fun _ => .andThen (.counted ?_) fun _ => ?_
  · exact .andThen .u16 fun _ => .lifted _
  · refine .andThen (Field.read_stable pool name).counted fun _ => ?_
    exact .andThen (Method.read_stable pool name).counted fun _ => (Attribute.readAll_stable pool).andReturn _

/-- Of the inputs that a decoder accepts none is a proper front of another, and its errors do not go away behind
the point where they arise. -/
structure PrefixFree {α : Type} (decode : List UInt8 → Except FormatError α) : Prop where
  trailing : ∀ {bytes value}, decode bytes = .ok value → ∀ extra, extra ≠ [] →
    decode (bytes ++ extra) = .error (.trailingBytes extra.length)
  cut : ∀ {front extra value}, decode (front ++ extra) = .ok value → extra ≠ [] →
    ∃ cause, decode front = .error cause ∧ cause.IsUnexpectedEnd
  kept : ∀ {bytes cause}, decode bytes = .error cause → ¬cause.IsUnexpectedEnd →
    (∀ count, cause ≠ .trailingBytes count) → ∀ extra, decode (bytes ++ extra) = .error cause

section

variable {α : Type} {read : Reader α} {bytes : List UInt8}

theorem whole_of_ok {value : α} {after : Cursor} (ran : read (.ofBytes bytes) = .ok value after) :
    read.whole bytes = if after.rest = [] then .ok value else .error (.trailingBytes after.rest.length) := by
  rw [Reader.whole, bind_of_ok ran]
  obtain ⟨position, rest, last⟩ := after
  cases rest with
  | nil => rfl
  | cons byte rest => rfl

theorem whole_of_error {cause : FormatError} {after : Cursor} (ran : read (.ofBytes bytes) = .error cause after) :
    read.whole bytes = .error cause := by
  rw [Reader.whole, bind_of_error ran]

theorem Reader.Stable.prefixFree (stable : Stable read) : PrefixFree read.whole where
  trailing {bytes value} accepted extra nonempty := by
    cases ran : read (.ofBytes bytes) with
    | error cause after => rw [whole_of_error ran] at accepted; cases accepted
    | ok other after =>
      rw [whole_of_ok ran] at accepted
      split at accepted
      next used =>
        obtain ⟨final, again⟩ := stable.ok ran extra none
        rw [whole_of_ok again]
        simp [used, nonempty]
      next => cases accepted
  cut {front extra value} accepted nonempty := by
    cases ran : read (.ofBytes front) with
    | ok other after =>
      obtain ⟨final, again⟩ := stable.ok ran extra none
      rw [whole_of_ok again] at accepted
      simp [nonempty] at accepted
    | error cause after =>
      -- Any other error would still be there with the missing bytes put back.
      refine ⟨cause, whole_of_error ran, Classical.byContradiction fun notEnd => ?_⟩
      obtain ⟨final, again⟩ := stable.error ran notEnd extra none
      rw [whole_of_error again] at accepted
      cases accepted
  kept {bytes cause} refused notEnd notTrailing extra := by
    cases ran : read (.ofBytes bytes) with
    | ok value after =>
      -- If the reader itself is content, the error can only be about what it left over.
      rw [whole_of_ok ran] at refused
      split at refused
      next => cases refused
      next =>
        cases refused
        exact absurd rfl (notTrailing _)
    | error other after =>
      rw [whole_of_error ran] at refused
      cases refused
      obtain ⟨final, again⟩ := stable.error ran notEnd extra none
      exact whole_of_error again

end

/-- Both class files and the bodies of methods can be told from what follows them. -/
theorem decode_prefixFree :
    PrefixFree ClassFile.decode ∧
      ∀ (pool : Pool) (name : String), PrefixFree fun info => Attribute.decode (Body.read pool) ⟨name, info⟩ :=
  ⟨ClassFile.read_stable.prefixFree, fun pool _ => (Body.read_stable pool).prefixFree⟩

def plainFile : List UInt8 :=
  [0xCA, 0xFE, 0xBA, 0xBE, 0, 0, 0, 52, 0, 5, 1, 0, 1, 65, 7, 0, 1, 1, 0, 1, 66, 7, 0, 3, 0, 0, 0, 2, 0, 4,
    0, 0, 0, 0, 0, 0, 0, 0]

theorem decode_prefixFree_plain :
    (∃ file, ClassFile.decode plainFile = .ok file) ∧
      ClassFile.decode (plainFile ++ [7, 7]) = .error (.trailingBytes 2) ∧
      (∃ cause, ClassFile.decode (plainFile.take 9) = .error cause ∧ cause.IsUnexpectedEnd) ∧
      ∀ extra, ClassFile.decode ([0xCA, 0xFE, 0xBA, 0xBF] ++ extra) = .error (.badMagic 0xCAFEBABF) := by
  have accepted : (ClassFile.decode plainFile).toOption.isSome = true := by decide +kernel
  cases decoded : ClassFile.decode plainFile with
  | error cause => simp [decoded, Except.toOption] at accepted
  | ok file =>
    have refused : ClassFile.decode [0xCA, 0xFE, 0xBA, 0xBF] = .error (.badMagic 0xCAFEBABF) := by rfl
    have parts : ClassFile.decode (plainFile.take 9 ++ plainFile.drop 9) = .ok file := decoded
    refine ⟨⟨file, rfl⟩, decode_prefixFree.1.trailing decoded [7, 7] (by decide),
      decode_prefixFree.1.cut parts (by decide), ?_⟩
    exact decode_prefixFree.1.kept refused (by rintro ⟨_, _, same⟩; cases same) (by intro count same; cases same)

end PhaseCheck
