import PhaseCheck.Binary.Cursor

set_option autoImplicit false

namespace PhaseCheck

-- What stands behind an opcode and where execution goes from there.
inductive Layout where
  | straight (operands : Nat)
  | stop (operands : Nat)
  | branch (fallsThrough : Bool)
  | farBranch (fallsThrough : Bool)
  | tableSwitch
  | lookupSwitch
  | wide
deriving DecidableEq, Repr

namespace Layout

def table : List (UInt8 × UInt8 × Layout) :=
  [ (0x00, 0x0f, .straight 0), -- constants
    (0x10, 0x10, .straight 1), -- bipush
    (0x11, 0x11, .straight 2), -- sipush
    (0x12, 0x12, .straight 1), -- ldc
    (0x13, 0x14, .straight 2), -- ldc_w, ldc2_w
    (0x15, 0x19, .straight 1), -- loads
    (0x1a, 0x35, .straight 0), -- short loads, array loads
    (0x36, 0x3a, .straight 1), -- stores
    (0x3b, 0x83, .straight 0), -- short stores, stack, arithmetic
    (0x84, 0x84, .straight 2), -- iinc
    (0x85, 0x98, .straight 0), -- conversions, comparisons
    (0x99, 0xa6, .branch true), -- conditional branches
    (0xa7, 0xa7, .branch false), -- goto
    (0xa8, 0xa8, .branch true), -- jsr
    (0xa9, 0xa9, .stop 1), -- ret
    (0xaa, 0xaa, .tableSwitch),
    (0xab, 0xab, .lookupSwitch),
    (0xac, 0xb1, .stop 0), -- returns
    (0xb2, 0xb8, .straight 2), -- fields, invokevirtual, invokespecial, invokestatic
    (0xb9, 0xba, .straight 4), -- invokeinterface, invokedynamic
    (0xbb, 0xbb, .straight 2), -- new
    (0xbc, 0xbc, .straight 1), -- newarray
    (0xbd, 0xbd, .straight 2), -- anewarray
    (0xbe, 0xbe, .straight 0), -- arraylength
    (0xbf, 0xbf, .stop 0), -- athrow
    (0xc0, 0xc1, .straight 2), -- checkcast, instanceof
    (0xc2, 0xc3, .straight 0), -- monitors
    (0xc4, 0xc4, .wide),
    (0xc5, 0xc5, .straight 3), -- multianewarray
    (0xc6, 0xc7, .branch true), -- ifnull, ifnonnull
    (0xc8, 0xc8, .farBranch false), -- goto_w
    (0xc9, 0xc9, .farBranch true) ] -- jsr_w

def wideTable : List (UInt8 × UInt8 × Layout) :=
  [ (0x15, 0x19, .straight 2), -- loads
    (0x36, 0x3a, .straight 2), -- stores
    (0x84, 0x84, .straight 4), -- iinc
    (0xa9, 0xa9, .stop 2) ] -- ret

def lookup (ranges : List (UInt8 × UInt8 × Layout)) (opcode : UInt8) : Option Layout :=
  (ranges.find? fun (first, last, _) => first ≤ opcode ∧ opcode ≤ last).map fun (_, _, layout) => layout

end Layout

structure Flow where
  branches : List Int
  fallsThrough : Bool
deriving DecidableEq, Repr

namespace Flow

open Reader

def offset32 : Reader Int := do
  return (← i32).toInt

-- The operands of a switch start at the next multiple of four.
def skipPadding : Reader Unit := do
  let cursor ← get
  skip ((4 - cursor.position % 4) % 4)

def readTable (offset : Nat) : Reader Flow := do
  skipPadding
  let default ← offset32
  let low ← offset32
  let high ← offset32
  if high < low then
    throw (.badSwitchBounds offset low high)
  let others ← times offset32 (high - low + 1).toNat
  return ⟨default :: others, false⟩

def readPairs (offset : Nat) : Reader Flow := do
  skipPadding
  let default ← offset32
  let count ← offset32
  if count < 0 then
    throw (.badSwitchBounds offset 0 count)
  let others ← times (do let _ ← offset32; offset32) count.toNat
  return ⟨default :: others, false⟩

def readOperands (offset : Nat) : Layout → Reader Flow
  | .straight operands => do
    skip operands
    return ⟨[], true⟩
  | .stop operands => do
    skip operands
    return ⟨[], false⟩
  | .branch fallsThrough => do
    return ⟨[(← i16).toInt], fallsThrough⟩
  | .farBranch fallsThrough => do
    return ⟨[← offset32], fallsThrough⟩
  | .tableSwitch => readTable offset
  | .lookupSwitch => readPairs offset
  | .wide => return ⟨[], true⟩

def read (offset : Nat) : Reader (UInt8 × Flow) := do
  let opcode ← u8
  match Layout.lookup Layout.table opcode with
  | none => throw (.badOpcode offset opcode)
  | some .wide =>
    let widened ← u8
    match Layout.lookup Layout.wideTable widened with
    | none => throw (.badOpcode (offset + 1) widened)
    | some layout => return (opcode, ← readOperands offset layout)
  | some layout => return (opcode, ← readOperands offset layout)

end Flow

structure Instruction where
  offset : Nat
  opcode : UInt8
  width : Nat
  targets : List Nat
  fallsThrough : Bool
deriving DecidableEq, Repr

namespace Instruction

def next (instruction : Instruction) : Nat :=
  instruction.offset + instruction.width

def target (length offset : Nat) (branch : Int) : Except FormatError Nat :=
  let target := (offset : Int) + branch
  if target < 0 ∨ (length : Int) ≤ target then
    .error (.badTarget offset target)
  else
    .ok target.toNat

-- An operand that is cut short means that the instruction runs off the end of the body.
def decode (bytecode : List UInt8) (offset : Nat) : Except FormatError Instruction :=
  match Flow.read offset (.placed bytecode offset) with
  | .error (.unexpectedEnd ..) _ => .error (.codeOverrun offset)
  | .error cause _ => .error cause
  | .ok (opcode, flow) cursor => do
    let targets ← flow.branches.mapM (target bytecode.length offset)
    return ⟨offset, opcode, cursor.position - offset, targets, flow.fallsThrough⟩

theorem lt_length_of_decode {bytecode : List UInt8} {offset : Nat} {instruction : Instruction}
    (decoded : decode bytecode offset = .ok instruction) : offset < bytecode.length := by
  by_cases inside : offset < bytecode.length
  · exact inside
  · have past : bytecode.drop offset = [] := List.drop_eq_nil_of_le (by omega)
    simp [decode, Flow.read, Cursor.placed, past, Reader.u8, bind, EStateM.bind] at decoded

end Instruction

end PhaseCheck
