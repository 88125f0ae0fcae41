import PhaseCheck.Binary.Cursor

set_option autoImplicit false

namespace PhaseCheck

inductive HandleKind where
  | getField | getStatic | putField | putStatic
  | invokeVirtual | invokeStatic | invokeSpecial | newInvokeSpecial | invokeInterface
deriving DecidableEq, Repr

def HandleKind.ofByte : UInt8 → Except FormatError HandleKind
  | 1 => .ok .getField
  | 2 => .ok .getStatic
  | 3 => .ok .putField
  | 4 => .ok .putStatic
  | 5 => .ok .invokeVirtual
  | 6 => .ok .invokeStatic
  | 7 => .ok .invokeSpecial
  | 8 => .ok .newInvokeSpecial
  | 9 => .ok .invokeInterface
  | kind => .error (.badHandleKind kind)

inductive Constant where
  | class (name : UInt16)
  | field (owner nameAndType : UInt16)
  | method (owner nameAndType : UInt16) (inInterface : Bool)
  | string (text : UInt16)
  | integer (value : Int32)
  | float (bits : UInt32)
  | long (value : Int64)
  | double (bits : UInt64)
  | nameAndType (name descriptor : UInt16)
  | text (value : String)
  | methodHandle (kind : HandleKind) (member : UInt16)
  | methodType (descriptor : UInt16)
  | invokeDynamic (bootstrap nameAndType : UInt16)
deriving DecidableEq

namespace Constant

open Reader

-- Eight-byte constants take up two slots of the pool.
def slots : Constant → UInt64
  | .long _ | .double _ => 2
  | _ => 1

theorem slots_bounds (constant : Constant) : 1 ≤ constant.slots.toNat ∧ constant.slots.toNat ≤ 2 := by
  cases constant <;> simp [slots]

def read (index : UInt16) : Reader Constant := do
  match ← u8 with
  | 1 => return .text (← Reader.text)
  | 3 => return .integer (← i32)
  | 4 => return .float (← u32)
  | 5 => return .long (← i64)
  | 6 => return .double (← u64)
  | 7 => return .class (← u16)
  | 8 => return .string (← u16)
  | 9 => return .field (← u16) (← u16)
  | 10 => return .method (← u16) (← u16) false
  | 11 => return .method (← u16) (← u16) true
  | 12 => return .nameAndType (← u16) (← u16)
  | 15 => return .methodHandle (← HandleKind.ofByte (← u8)) (← u16)
  | 16 => return .methodType (← u16)
  | 18 => return .invokeDynamic (← u16) (← u16)
  | tag => throw (.unknownTag index tag)

end Constant

end PhaseCheck
