import PhaseCheck.Proofs.Binary.Reads
import PhaseCheck.Proofs.Descriptor.RoundTrip
import PhaseCheck.Proofs.SlotVec
import PhaseCheck.ClassFile

set_option autoImplicit false

namespace PhaseCheck

structure Counted (α : Type) where
  items : List α
  few : items.length < 2 ^ 16

def Counted.bytes {α : Type} (bytesOf : α → List UInt8) (counted : Counted α) : List UInt8 :=
  bigEndianBytes 2 counted.items.length ++ counted.items.flatMap bytesOf

def HandleKind.byte : HandleKind → UInt8
  | .getField => 1
  | .getStatic => 2
  | .putField => 3
  | .putStatic => 4
  | .invokeVirtual => 5
  | .invokeStatic => 6
  | .invokeSpecial => 7
  | .newInvokeSpecial => 8
  | .invokeInterface => 9

def Constant.Encodable : Constant → Prop
  | .text value => (ModifiedUtf8.encode value).length < 2 ^ 16
  | _ => True

def Constant.bytes : Constant → List UInt8
  | .text value => 1 :: (bigEndianBytes 2 (ModifiedUtf8.encode value).length ++ ModifiedUtf8.encode value)
  | .integer value => 3 :: bigEndianBytes 4 value.toUInt32.toNat
  | .float bits => 4 :: bigEndianBytes 4 bits.toNat
  | .long value => 5 :: bigEndianBytes 8 value.toUInt64.toNat
  | .double bits => 6 :: bigEndianBytes 8 bits.toNat
  | .class name => 7 :: bigEndianBytes 2 name.toNat
  | .string spelling => 8 :: bigEndianBytes 2 spelling.toNat
  | .field owner signature => 9 :: (bigEndianBytes 2 owner.toNat ++ bigEndianBytes 2 signature.toNat)
  | .method owner signature false => 10 :: (bigEndianBytes 2 owner.toNat ++ bigEndianBytes 2 signature.toNat)
  | .method owner signature true => 11 :: (bigEndianBytes 2 owner.toNat ++ bigEndianBytes 2 signature.toNat)
  | .nameAndType name descriptor => 12 :: (bigEndianBytes 2 name.toNat ++ bigEndianBytes 2 descriptor.toNat)
  | .methodHandle kind member => 15 :: kind.byte :: bigEndianBytes 2 member.toNat
  | .methodType descriptor => 16 :: bigEndianBytes 2 descriptor.toNat
  | .invokeDynamic bootstrap signature =>
    18 :: (bigEndianBytes 2 bootstrap.toNat ++ bigEndianBytes 2 signature.toNat)

def Flagged.known : Flagged → UInt16
  | .type => 0x0001 ||| 0x0010 ||| 0x0020 ||| 0x0200 ||| 0x0400 ||| 0x1000 ||| 0x2000 ||| 0x4000
  | .method =>
    0x0001 ||| 0x0002 ||| 0x0004 ||| 0x0008 ||| 0x0010 ||| 0x0020 ||| 0x0040 ||| 0x0080 ||| 0x0100 ||| 0x0400 |||
      0x0800 ||| 0x1000
  | .field => 0x0001 ||| 0x0002 ||| 0x0004 ||| 0x0008 ||| 0x0010 ||| 0x0040 ||| 0x0080 ||| 0x1000 ||| 0x4000

def Constant.isWide : Constant → Bool
  | .long _ | .double _ => true
  | _ => false

def Constant.room (constant : Constant) : Nat :=
  if constant.isWide then 2 else 1

/-- A constant stands at an index. The first one stands at one, and the others follow slot by slot. -/
def StandsAt (constants : List Constant) (index : UInt16) (constant : Constant) : Prop :=
  (index.toNat, constant) ∈ slotted Constant.room 1 constants

instance (constants : List Constant) (index : UInt16) (constant : Constant) :
    Decidable (StandsAt constants index constant) :=
  inferInstanceAs (Decidable (_ ∈ _))

structure TextRef (constants : List Constant) (text : String) where
  index : UInt16
  stands : StandsAt constants index (.text text)

structure ClassRef (constants : List Constant) where
  index : UInt16
  name : ClassName
  spelling : TextRef constants name.toInternal
  stands : StandsAt constants index (.class spelling.index)

-- Where there is no class, its index is zero.
def ClassRef.optional {constants : List Constant} (reference : Option (ClassRef constants)) : UInt16 :=
  (reference.map ClassRef.index).getD 0

structure AttributeLayout (constants : List Constant) where
  content : Attribute
  named : TextRef constants content.name
  fits : content.info.length < 2 ^ 32

structure HandlerLayout (constants : List Constant) where
  start : UInt16
  stop : UInt16
  target : UInt16
  catches : Option (ClassRef constants)

def payloads (name : String) (attributes : List Attribute) : List (List UInt8) :=
  (attributes.filter (·.name = name)).map Attribute.info

section

variable {constants : List Constant}

def AttributeLayout.bytes (layout : AttributeLayout constants) : List UInt8 :=
  bigEndianBytes 2 layout.named.index.toNat ++
    (bigEndianBytes 4 layout.content.info.length ++ layout.content.info)

def attributesOf (layouts : Counted (AttributeLayout constants)) : List Attribute :=
  layouts.items.map AttributeLayout.content

def HandlerLayout.bytes (layout : HandlerLayout constants) : List UInt8 :=
  bigEndianBytes 2 layout.start.toNat ++ (bigEndianBytes 2 layout.stop.toNat ++
    (bigEndianBytes 2 layout.target.toNat ++ bigEndianBytes 2 (ClassRef.optional layout.catches).toNat))

def HandlerLayout.handler (layout : HandlerLayout constants) : Handler :=
  ⟨layout.start, layout.stop, layout.target, layout.catches.map ClassRef.name⟩

end

def LineRow.bytes (row : LineRow) : List UInt8 :=
  bigEndianBytes 2 row.start.toNat ++ bigEndianBytes 2 row.line.toNat

structure BodyLayout (constants : List Constant) where
  maxStack : UInt16
  maxLocals : UInt16
  bytecode : List UInt8
  fits : bytecode.length < 2 ^ 32
  handlers : Counted (HandlerLayout constants)
  attributes : Counted (AttributeLayout constants)
  -- The line number tables are among the attributes, wherever they stand.
  tables : List (Counted LineRow)
  lined : payloads "LineNumberTable" (attributesOf attributes) = tables.map (Counted.bytes LineRow.bytes)

namespace BodyLayout

variable {constants : List Constant}

def bytes (layout : BodyLayout constants) : List UInt8 :=
  bigEndianBytes 2 layout.maxStack.toNat ++ (bigEndianBytes 2 layout.maxLocals.toNat ++
    (bigEndianBytes 4 layout.bytecode.length ++ (layout.bytecode ++
      (layout.handlers.bytes HandlerLayout.bytes ++ layout.attributes.bytes AttributeLayout.bytes))))

def body (layout : BodyLayout constants) : Body :=
  ⟨layout.maxStack, layout.maxLocals, layout.bytecode, layout.handlers.items.map HandlerLayout.handler,
    layout.tables.flatMap Counted.items⟩

end BodyLayout

structure MemberLayout (constants : List Constant) (descriptor : String) where
  access : UInt16
  name : MemberName
  named : TextRef constants name.text
  described : TextRef constants descriptor
  attributes : Counted (AttributeLayout constants)

def MemberLayout.bytes {constants : List Constant} {descriptor : String}
    (layout : MemberLayout constants descriptor) : List UInt8 :=
  bigEndianBytes 2 layout.access.toNat ++ (bigEndianBytes 2 layout.named.index.toNat ++
    (bigEndianBytes 2 layout.described.index.toNat ++ layout.attributes.bytes AttributeLayout.bytes))

structure FieldLayout (constants : List Constant) where
  type : FieldType
  writable : type.Writable
  member : MemberLayout constants type.render

structure MethodLayout (constants : List Constant) where
  type : MethodType
  writable : type.Writable
  member : MemberLayout constants type.render
  -- At most one attribute holds a body.
  body : Option (BodyLayout constants)
  coded : payloads "Code" (attributesOf member.attributes) = (body.map BodyLayout.bytes).toList

section

variable {constants : List Constant}

def FieldLayout.field (owner : ClassName) (layout : FieldLayout constants) : Field :=
  ⟨owner, ⟨layout.member.access &&& Flagged.field.known⟩, layout.member.name, layout.type.render, layout.type,
    attributesOf layout.member.attributes⟩

def MethodLayout.method (owner : ClassName) (layout : MethodLayout constants) : Method :=
  ⟨owner, ⟨layout.member.access &&& Flagged.method.known⟩, layout.member.name, layout.type.render, layout.type,
    layout.body.map BodyLayout.body, attributesOf layout.member.attributes⟩

end

structure ClassLayout where
  constants : List Constant
  encodable : ∀ constant ∈ constants, constant.Encodable
  fits : slotsOf Constant.room constants ≤ 65534
  access : UInt16
  this : ClassRef constants
  superclass : Option (ClassRef constants)
  -- Only one class may have no superclass.
  rooted : superclass = none → this.name.text = "java.lang.Object"
  interfaces : Counted (ClassRef constants)
  fields : Counted (FieldLayout constants)
  methods : Counted (MethodLayout constants)
  attributes : Counted (AttributeLayout constants)

def Pool.ofConstants (constants : List Constant) : Pool :=
  ⟨.ofElements Constant.room 1 constants⟩

namespace ClassLayout

def bytes (layout : ClassLayout) : List UInt8 :=
  [0xCA, 0xFE, 0xBA, 0xBE] ++ ([0, 0, 0, 52] ++
    (bigEndianBytes 2 (1 + slotsOf Constant.room layout.constants) ++ (layout.constants.flatMap Constant.bytes ++
      (bigEndianBytes 2 layout.access.toNat ++ (bigEndianBytes 2 layout.this.index.toNat ++
        (bigEndianBytes 2 (ClassRef.optional layout.superclass).toNat ++
          (layout.interfaces.bytes (fun reference => bigEndianBytes 2 reference.index.toNat) ++
            (layout.fields.bytes (·.member.bytes) ++ (layout.methods.bytes (·.member.bytes) ++
              layout.attributes.bytes AttributeLayout.bytes)))))))))

def file (layout : ClassLayout) : ClassFile where
  version := ⟨0, 52⟩
  pool := .ofConstants layout.constants
  access := ⟨layout.access &&& Flagged.type.known⟩
  name := layout.this.name
  superclass := layout.superclass.map ClassRef.name
  interfaces := layout.interfaces.items.map ClassRef.name
  fields := layout.fields.items.map (FieldLayout.field layout.this.name)
  methods := layout.methods.items.map (MethodLayout.method layout.this.name)
  attributes := attributesOf layout.attributes

end ClassLayout

end PhaseCheck
