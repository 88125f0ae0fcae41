set_option autoImplicit false

namespace PhaseCheck

inductive Flagged where
  | type | method | field
deriving DecidableEq, Repr

def Flagged.table : Flagged → List (String × UInt16)
  | .type =>
    [("PUBLIC", 0x0001), ("FINAL", 0x0010), ("SUPER", 0x0020), ("INTERFACE", 0x0200), ("ABSTRACT", 0x0400),
      ("SYNTHETIC", 0x1000), ("ANNOTATION", 0x2000), ("ENUM", 0x4000)]
  | .method =>
    [("PUBLIC", 0x0001), ("PRIVATE", 0x0002), ("PROTECTED", 0x0004), ("STATIC", 0x0008), ("FINAL", 0x0010),
      ("SYNCHRONIZED", 0x0020), ("BRIDGE", 0x0040), ("VARARGS", 0x0080), ("NATIVE", 0x0100), ("ABSTRACT", 0x0400),
      ("STRICT", 0x0800), ("SYNTHETIC", 0x1000)]
  | .field =>
    [("PUBLIC", 0x0001), ("PRIVATE", 0x0002), ("PROTECTED", 0x0004), ("STATIC", 0x0008), ("FINAL", 0x0010),
      ("VOLATILE", 0x0040), ("TRANSIENT", 0x0080), ("SYNTHETIC", 0x1000), ("ENUM", 0x4000)]

def Flagged.mask (owner : Flagged) : UInt16 :=
  owner.table.foldl (fun bits (_, bit) => bits ||| bit) 0

structure Access (owner : Flagged) where
  bits : UInt16
deriving DecidableEq, Repr

namespace Access

variable {owner : Flagged}

def ofBits (owner : Flagged) (bits : UInt16) : Access owner :=
  ⟨bits &&& owner.mask⟩

def has (access : Access owner) (bit : UInt16) : Bool :=
  access.bits &&& bit = bit

def names (access : Access owner) : List String :=
  (owner.table.filter fun (_, bit) => access.has bit).map Prod.fst

def describe (access : Access owner) : String :=
  match access.names with
  | [] => "(empty)"
  | names => " | ".intercalate names

end Access

def Access.isPrivate (access : Access .method) : Bool := access.has 0x0002

def Access.isStatic (access : Access .method) : Bool := access.has 0x0008

def Access.isInterface (access : Access .type) : Bool := access.has 0x0200

end PhaseCheck
