import PhaseCheck.Pool

set_option autoImplicit false

namespace PhaseCheck

structure Attribute where
  name : String
  info : List UInt8
deriving DecidableEq

namespace Attribute

variable {α : Type}

def read (pool : Pool) : Reader Attribute := do
  let name ← pool.text (← Reader.u16)
  let length ← Reader.u32
  let info ← Reader.take length.toNat
  return ⟨name, info⟩

def readAll (pool : Pool) : Reader (List Attribute) :=
  Reader.counted (read pool)

def decode (payload : Reader α) (item : Attribute) : Except FormatError α :=
  payload.whole item.info

-- Decodes the attribute of a name, if there is one. Two of that name are an error.
def find (name : String) (payload : Reader α) (attributes : List Attribute) : Except FormatError (Option α) :=
  match attributes.filter (·.name = name) with
  | [] => .ok none
  | [item] => (item.decode payload).map some
  | _ => .error (.duplicateAttribute name)

end Attribute

end PhaseCheck
