import PhaseCheck.Constant
import PhaseCheck.SlotVec

set_option autoImplicit false

namespace PhaseCheck

structure Pool where
  constants : SlotVec Constant

structure MethodRef where
  owner : ClassName
  name : MemberName
  type : MethodType
  inInterface : Bool
deriving DecidableEq

namespace Pool

theorem toNat_next_push {count : UInt16} {constants : SlotVec Constant} (more : constants.next < count.toUInt64)
    (constant : Constant) :
    (constants.push constant.slots constant).next.toNat = constants.next.toNat + constant.slots.toNat := by
  have room : constants.next.toNat < count.toNat := UInt64.lt_iff_toNat_lt.mp more
  have small := count.toNat_lt
  have narrow := constant.slots_bounds.2
  rw [SlotVec.push, UInt64.toNat_add, Nat.mod_eq_of_lt (by omega)]

def fill (count : UInt16) (constants : SlotVec Constant) : Reader (SlotVec Constant) := do
  if _more : constants.next < count.toUInt64 then
    let constant ← Constant.read constants.next.toUInt16
    fill count (constants.push constant.slots constant)
  else
    return constants
termination_by count.toNat - constants.next.toNat
decreasing_by
  have room : constants.next.toNat < count.toNat := UInt64.lt_iff_toNat_lt.mp _more
  have positive := constant.slots_bounds.1
  rw [toNat_next_push _more]
  omega

-- An eight-byte constant in the last slot spills over the declared count.
def read : Reader Pool := do
  let count ← Reader.u16
  let constants ← fill count (.startingAt 1)
  if constants.next = count.toUInt64 then
    return ⟨constants⟩
  else
    throw (.poolOverflow count)

def size (pool : Pool) : Nat :=
  pool.constants.size

def isEmpty (pool : Pool) : Bool :=
  pool.constants.isEmpty

def toList (pool : Pool) : List (UInt16 × Constant) :=
  pool.constants.toList.map fun (index, constant) => (index.toUInt16, constant)

def get (pool : Pool) (index : UInt16) : Except FormatError Constant :=
  match pool.constants.get index.toUInt64 with
  | .found constant => .ok constant
  | .misaligned | .tooLarge => .error (.noConstant index)

def text (pool : Pool) (index : UInt16) : Except FormatError String := do
  match ← pool.get index with
  | .text value => return value
  | _ => throw (.wrongConstant index .text)

def className (pool : Pool) (index : UInt16) : Except FormatError ClassName := do
  match ← pool.get index with
  | .class name => (ClassName.ofInternal (← pool.text name)).mapError .malformedName
  | _ => throw (.wrongConstant index .className)

def memberName (pool : Pool) (index : UInt16) : Except FormatError MemberName := do
  (MemberName.ofString (← pool.text index)).mapError .malformedName

def nameAndType (pool : Pool) (index : UInt16) : Except FormatError (String × String) := do
  match ← pool.get index with
  | .nameAndType name descriptor => return (← pool.text name, ← pool.text descriptor)
  | _ => throw (.wrongConstant index .nameAndType)

-- Both texts are looked up before the owner, and judged after it.
def methodRef (pool : Pool) (index : UInt16) : Except FormatError MethodRef := do
  match ← pool.get index with
  | .method owner nameAndType inInterface =>
    let (name, descriptor) ← pool.nameAndType nameAndType
    let owner ← pool.className owner
    let name ← (MemberName.ofString name).mapError .malformedName
    let type ← (MethodType.parse descriptor).mapError .badDescriptor
    return ⟨owner, name, type, inInterface⟩
  | _ => throw (.wrongConstant index .method)

end Pool

end PhaseCheck
