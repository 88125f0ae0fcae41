import PhaseCheck.Code.Body

set_option autoImplicit false

namespace PhaseCheck

structure CallSite where
  offset : Nat
  method : UInt16
deriving DecidableEq, Repr

namespace CallSite

-- Virtual, special, static and interface calls.
def isCall (opcode : UInt8) : Bool :=
  0xb6 ≤ opcode ∧ opcode ≤ 0xb9

def operand (bytecode : List UInt8) (offset : Nat) : Except FormatError UInt16 :=
  match Reader.u16 (.placed bytecode (offset + 1)) with
  | .ok index _ => .ok index
  | .error cause _ => .error cause

def collect (bytecode : List UInt8) (instruction : Instruction) : EStateM FormatError (List CallSite) Unit :=
  fun sites =>
    if isCall instruction.opcode then
      match operand bytecode instruction.offset with
      | .ok method => .ok () (⟨instruction.offset, method⟩ :: sites)
      | .error cause => .error cause sites
    else
      .ok () sites

end CallSite

namespace Body

def callSites (body : Body) : Except FormatError (List CallSite) :=
  match Scan.run body.bytecode body.entries (CallSite.collect body.bytecode) [] with
  | .ok _ sites => .ok (sites.mergeSort fun first second => first.offset ≤ second.offset)
  | .error cause _ => .error cause

def calls (pool : Pool) (body : Body) : Except FormatError (List MethodRef) := do
  let sites ← body.callSites
  let methods ← sites.mapM fun site => pool.methodRef site.method
  return methods.eraseDups

end Body

end PhaseCheck
