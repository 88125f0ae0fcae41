import PhaseCheck.Code.Instruction

set_option autoImplicit false

namespace PhaseCheck

inductive Mnemonic where
  | nop | aconst_null | iconst_m1 | iconst_0 | iconst_1 | iconst_2 | iconst_3 | iconst_4 | iconst_5 | lconst_0
  | lconst_1 | fconst_0 | fconst_1 | fconst_2 | dconst_0 | dconst_1
  | bipush | sipush | ldc | ldc_w | ldc2_w
  | iload | lload | fload | dload | aload
  | iload_0 | iload_1 | iload_2 | iload_3 | lload_0 | lload_1 | lload_2 | lload_3 | fload_0 | fload_1 | fload_2
  | fload_3 | dload_0 | dload_1 | dload_2 | dload_3 | aload_0 | aload_1 | aload_2 | aload_3
  | iaload | laload | faload | daload | aaload | baload | caload | saload
  | istore | lstore | fstore | dstore | astore
  | istore_0 | istore_1 | istore_2 | istore_3 | lstore_0 | lstore_1 | lstore_2 | lstore_3 | fstore_0 | fstore_1
  | fstore_2 | fstore_3 | dstore_0 | dstore_1 | dstore_2 | dstore_3 | astore_0 | astore_1 | astore_2 | astore_3
  | iastore | lastore | fastore | dastore | aastore | bastore | castore | sastore
  | pop | pop2 | dup | dup_x1 | dup_x2 | dup2 | dup2_x1 | dup2_x2 | swap
  | iadd | ladd | fadd | dadd | isub | lsub | fsub | dsub | imul | lmul | fmul | dmul | idiv | ldiv | fdiv | ddiv
  | irem | lrem | frem | drem | ineg | lneg | fneg | dneg
  | ishl | lshl | ishr | lshr | iushr | lushr | iand | land | ior | lor | ixor | lxor | iinc
  | i2l | i2f | i2d | l2i | l2f | l2d | f2i | f2l | f2d | d2i | d2l | d2f | i2b | i2c | i2s
  | lcmp | fcmpl | fcmpg | dcmpl | dcmpg
  | ifeq | ifne | iflt | ifge | ifgt | ifle | if_icmpeq | if_icmpne | if_icmplt | if_icmpge | if_icmpgt | if_icmple
  | if_acmpeq | if_acmpne
  | goto | jsr | ret | tableswitch | lookupswitch
  | ireturn | lreturn | freturn | dreturn | areturn | return
  | getstatic | putstatic | getfield | putfield | invokevirtual | invokespecial | invokestatic | invokeinterface
  | invokedynamic
  | new | newarray | anewarray | arraylength | athrow | checkcast | instanceof | monitorenter | monitorexit
  | wide | multianewarray | ifnull | ifnonnull | goto_w | jsr_w
deriving DecidableEq

inductive OperandShape where
  | plain (count : Nat)
  | branch | farBranch | tableSwitch | lookupSwitch
  -- The opcode and the operands of another instruction.
  | widened
deriving DecidableEq

namespace Mnemonic

def opcode (mnemonic : Mnemonic) : UInt8 :=
  mnemonic.ctorIdx.toUInt8

def shape : Mnemonic → OperandShape
  | .bipush | .ldc | .iload | .lload | .fload | .dload | .aload | .istore | .lstore | .fstore | .dstore | .astore
  | .ret | .newarray => .plain 1
  | .sipush | .ldc_w | .ldc2_w | .iinc | .getstatic | .putstatic | .getfield | .putfield | .invokevirtual
  | .invokespecial | .invokestatic | .new | .anewarray | .checkcast | .instanceof => .plain 2
  | .multianewarray => .plain 3
  | .invokeinterface | .invokedynamic => .plain 4
  | .ifeq | .ifne | .iflt | .ifge | .ifgt | .ifle | .if_icmpeq | .if_icmpne | .if_icmplt | .if_icmpge | .if_icmpgt
  | .if_icmple | .if_acmpeq | .if_acmpne | .ifnull | .ifnonnull | .goto | .jsr => .branch
  | .goto_w | .jsr_w => .farBranch
  | .tableswitch => .tableSwitch
  | .lookupswitch => .lookupSwitch
  | .wide => .widened
  | _ => .plain 0

def wideOperands : Mnemonic → Option Nat
  | .iload | .lload | .fload | .dload | .aload | .istore | .lstore | .fstore | .dstore | .astore | .ret => some 2
  | .iinc => some 4
  | _ => none

def fallsThrough : Mnemonic → Bool
  | .goto | .goto_w | .ret | .tableswitch | .lookupswitch | .ireturn | .lreturn | .freturn | .dreturn | .areturn
  | .return | .athrow => false
  | _ => true

def layout (mnemonic : Mnemonic) : Layout :=
  match mnemonic.shape with
  | .plain count => if mnemonic.fallsThrough then .straight count else .stop count
  | .branch => .branch mnemonic.fallsThrough
  | .farBranch => .farBranch mnemonic.fallsThrough
  | .tableSwitch => .tableSwitch
  | .lookupSwitch => .lookupSwitch
  | .widened => .wide

def wideLayout? (mnemonic : Mnemonic) : Option Layout :=
  mnemonic.wideOperands.map fun count => if mnemonic.fallsThrough then .straight count else .stop count

theorem ctorIdx_lt (mnemonic : Mnemonic) : mnemonic.ctorIdx < 202 := by
  cases mnemonic <;> decide

-- The kernel counts through the numbers of all instructions, which is far quicker than a case for each.
theorem forall_of_ofNat {holds : Mnemonic → Prop} (every : ∀ number < 202, holds (ofNat number)) (mnemonic : Mnemonic) :
    holds mnemonic := by
  rw [← ofNat_ctorIdx mnemonic]
  exact every _ mnemonic.ctorIdx_lt

theorem lookup_opcode : ∀ mnemonic : Mnemonic, Layout.lookup Layout.table mnemonic.opcode = some mnemonic.layout :=
  forall_of_ofNat (by decide +kernel)

example : opcode .iinc = 0x84 ∧ opcode .goto = 0xa7 ∧ opcode .athrow = 0xbf ∧ opcode .jsr_w = 0xc9 := by decide

theorem lookup_wide_opcode :
    ∀ mnemonic : Mnemonic, Layout.lookup Layout.wideTable mnemonic.opcode = mnemonic.wideLayout? :=
  forall_of_ofNat (by decide +kernel)

theorem eq_tableswitch : ∀ mnemonic : Mnemonic, mnemonic.shape = .tableSwitch → mnemonic = .tableswitch :=
  forall_of_ofNat (by decide +kernel)

theorem eq_lookupswitch : ∀ mnemonic : Mnemonic, mnemonic.shape = .lookupSwitch → mnemonic = .lookupswitch :=
  forall_of_ofNat (by decide +kernel)

theorem eq_wide : ∀ mnemonic : Mnemonic, mnemonic.layout = .wide → mnemonic = .wide :=
  forall_of_ofNat (by decide +kernel)

theorem exists_opcode_or_unknown (opcode : UInt8) :
    (∃ mnemonic : Mnemonic, mnemonic.opcode = opcode) ∨
      Layout.lookup Layout.table opcode = none ∧ Layout.lookup Layout.wideTable opcode = none := by
  have every : ∀ number < 256, (ofNat number).opcode = number.toUInt8 ∨
      Layout.lookup Layout.table number.toUInt8 = none ∧ Layout.lookup Layout.wideTable number.toUInt8 = none := by
    decide +kernel
  have same : opcode.toNat.toUInt8 = opcode := UInt8.ofNat_toNat
  rcases every opcode.toNat opcode.toNat_lt with known | unknown
  · exact .inl ⟨_, known.trans same⟩
  · exact .inr (by rwa [same] at unknown)

theorem exists_of_lookup {opcode : UInt8} {layout : Layout} (found : Layout.lookup Layout.table opcode = some layout) :
    ∃ mnemonic : Mnemonic, mnemonic.opcode = opcode ∧ mnemonic.layout = layout := by
  rcases exists_opcode_or_unknown opcode with ⟨mnemonic, rfl⟩ | ⟨unknown, _⟩
  · exact ⟨mnemonic, rfl, Option.some.inj ((lookup_opcode mnemonic).symm.trans found)⟩
  · cases unknown.symm.trans found

theorem exists_of_lookup_wide {opcode : UInt8} {layout : Layout}
    (found : Layout.lookup Layout.wideTable opcode = some layout) :
    ∃ mnemonic : Mnemonic, mnemonic.opcode = opcode ∧ mnemonic.wideLayout? = some layout := by
  rcases exists_opcode_or_unknown opcode with ⟨mnemonic, rfl⟩ | ⟨_, unknown⟩
  · exact ⟨mnemonic, rfl, (lookup_wide_opcode mnemonic).symm.trans found⟩
  · cases unknown.symm.trans found

end Mnemonic

end PhaseCheck
