import PhaseCheck.Access
import PhaseCheck.Code.Body

set_option autoImplicit false

namespace PhaseCheck

structure Field where
  owner : ClassName
  access : Access .field
  name : MemberName
  descriptor : String
  type : FieldType
  attributes : List Attribute

structure Method where
  owner : ClassName
  access : Access .method
  name : MemberName
  descriptor : String
  type : MethodType
  body : Option Body
  attributes : List Attribute

/-- What tells a method from all others: class, name and descriptor. -/
structure MethodKey where
  owner : ClassName
  name : MemberName
  descriptor : String
deriving DecidableEq

def MethodKey.text (key : MethodKey) : String :=
  key.owner.text ++ "." ++ key.name.text ++ key.descriptor

namespace Field

def read (pool : Pool) (owner : ClassName) : Reader Field := do
  let access ← Reader.u16
  let name ← pool.memberName (← Reader.u16)
  let descriptor ← pool.text (← Reader.u16)
  let type ← (FieldType.parse descriptor).mapError FormatError.badDescriptor
  let attributes ← Attribute.readAll pool
  return ⟨owner, .ofBits .field access, name, descriptor, type, attributes⟩

end Field

namespace Method

def read (pool : Pool) (owner : ClassName) : Reader Method := do
  let access ← Reader.u16
  let name ← pool.memberName (← Reader.u16)
  let descriptor ← pool.text (← Reader.u16)
  let type ← (MethodType.parse descriptor).mapError FormatError.badDescriptor
  let attributes ← Attribute.readAll pool
  let body ← Body.find pool attributes
  return ⟨owner, .ofBits .method access, name, descriptor, type, body, attributes⟩

def key (method : Method) : MethodKey :=
  ⟨method.owner, method.name, method.descriptor⟩

def isVirtual (method : Method) : Bool :=
  !method.name.isInitializer && !method.access.isStatic && !method.access.isPrivate

def hasSameSignature (method other : Method) : Bool :=
  method.name = other.name && method.type.parameters = other.type.parameters

def lineAt (method : Method) (offset : Nat) : UInt16 :=
  (method.body.map (·.lineAt offset)).getD 0

end Method

end PhaseCheck
